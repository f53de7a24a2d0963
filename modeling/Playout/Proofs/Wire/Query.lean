import Mathlib.Data.List.Forall2
import Playout.Proofs.Console.Output
import Playout.Proofs.Text.Percent
import Playout.Proofs.Wire.Isolation

namespace Playout

namespace Text

theorem foldr_word {word : List Char} (hw : ∀ c ∈ word, isBlank c = false) (ws : List (List Char)) :
    word.foldr (fun c ws => if isBlank c then [] :: ws else ws.modifyHead (c :: ·)) ([] :: ws) =
      word :: ws := by
  induction word with
  | nil => rfl
  | cons c word ih =>
      obtain ⟨hc, hw⟩ := List.forall_mem_cons.1 hw
      rw [List.foldr_cons, ih hw]
      simp [hc]

theorem words_of_not_blank {word : List Char} (hw : ∀ c ∈ word, isBlank c = false)
    (hn : word ≠ []) : words word = [word] := by
  rw [words, foldr_word hw]
  simp [hn]

theorem words_append {word : List Char} (hw : ∀ c ∈ word, isBlank c = false) (hn : word ≠ [])
    (rest : List Char) : words (word ++ ' ' :: rest) = word :: words rest := by
  have hs : isBlank ' ' = true := rfl
  simp only [words, List.foldr_append, List.foldr_cons, hs, if_true, foldr_word hw]
  simp [hn]

theorem isBlank_of_bounds {c : Char} (hl : 33 ≤ c.toNat) (hu : c.toNat ≤ 126) :
    isBlank c = false := by
  simp only [isBlank, Bool.or_eq_false_iff, Bool.and_eq_false_iff, beq_eq_false_iff_ne, ne_eq,
    decide_eq_false_iff_not]
  omega

theorem not_blank_of_any {text : List Char} (h : text.any isBlank = false) :
    ∀ c ∈ text, isBlank c = false := by
  simpa using h

theorem pieces_flatMap {sep : Char} {text : List Char} {texts : List (List Char)}
    (h : ∀ t ∈ text :: texts, sep ∉ t) :
    pieces sep (text ++ texts.flatMap (sep :: ·)) = text :: texts := by
  induction texts generalizing text with
  | nil => simpa using pieces_of_not_mem (h text (List.mem_cons_self ..))
  | cons t texts ih =>
      obtain ⟨ht, hts⟩ := List.forall_mem_cons.1 h
      rw [List.flatMap_cons, List.cons_append, pieces_append, pieces_of_not_mem ht, ih hts]
      rfl

end Text

namespace Wire.Request

open Text.Percent

def Ends (rest : String) : Prop := rest = "" ∨ ∃ headers, rest = "\r\n" ++ headers

theorem firstLine_append {line : List Char} {rest : String} (h : '\r' ∉ line) (hr : Ends rest) :
    firstLine (line ++ rest.toList) = line := by
  induction line with
  | nil => obtain rfl | ⟨headers, rfl⟩ := hr <;> simp [firstLine]
  | cons c line ih =>
      rw [List.mem_cons, not_or] at h
      rw [List.cons_append, firstLine, ih h.2]
      rintro _ rfl
      exact absurd rfl h.1

theorem tokens_of_target {target decoded rest : String}
    (ht : ∀ c ∈ target.toList, Text.isBlank c = false) (hn : target ≠ "") (hr : Ends rest)
    (hd : Text.Utf8.decode (decode (Text.Utf8.encode target)) = .ok decoded) :
    tokens ("GET " ++ target ++ " HTTP/1.0" ++ rest) = tokensOfTarget decoded.toList := by
  have hgood : ∀ c ∈ "GET".toList ++ "HTTP/1.0".toList, Text.isBlank c = false :=
    Text.not_blank_of_any (by decide)
  obtain ⟨hget, hversion⟩ := List.forall_mem_append.1 hgood
  have hline : '\r' ∉ "GET ".toList ++ target.toList ++ " HTTP/1.0".toList := by
    simp only [List.mem_append, not_or]
    refine ⟨⟨by decide, fun hm => ?_⟩, by decide⟩
    exact absurd (ht _ hm) (by decide)
  have hwords : Text.words ("GET ".toList ++ target.toList ++ " HTTP/1.0".toList) =
      ["GET".toList, target.toList, "HTTP/1.0".toList] := by
    have hnil : target.toList ≠ [] := fun he => hn (String.toList_inj.1 he)
    have hform : "GET ".toList ++ target.toList ++ " HTTP/1.0".toList =
        "GET".toList ++ ' ' :: (target.toList ++ ' ' :: "HTTP/1.0".toList) := by simp
    rw [hform, Text.words_append hget (by decide), Text.words_append ht hnil,
      Text.words_of_not_blank hversion (by decide)]
  rw [tokens]
  simp only [String.toList_append, firstLine_append hline hr, hwords, String.ofList_toList, hd,
    if_true]

def target (source : String) (arguments : List String) : String :=
  "/?src=" ++ source ++ String.join (arguments.map ("&" ++ ·))

section Escaped

variable {source escapedSource : String} {arguments escaped : List String}

theorem not_blank_of_escapes (h : Escapes source escapedSource) :
    ∀ c ∈ escapedSource.toList, Text.isBlank c = false := by
  intro c hc
  obtain ⟨hl, hu⟩ := h.bounds c hc
  exact Text.isBlank_of_bounds (by omega) (by omega)

theorem not_blank_target (hs : Escapes source escapedSource)
    (ha : List.Forall₂ Escapes arguments escaped) :
    ∀ c ∈ (target escapedSource escaped).toList, Text.isBlank c = false := by
  rw [target, String.toList_append, String.toList_append]
  have hmark : ∀ c ∈ "/?src=".toList, Text.isBlank c = false :=
    Text.not_blank_of_any (by decide)
  have hsign : ∀ c ∈ "&".toList, Text.isBlank c = false := Text.not_blank_of_any (by decide)
  refine List.forall_mem_append.2 ⟨List.forall_mem_append.2 ⟨hmark, ?_⟩, ?_⟩
  · exact not_blank_of_escapes hs
  · induction ha with
    | nil => simp
    | cons h _ ih =>
        rw [List.map_cons, String.join_cons, String.toList_append, String.toList_append]
        refine List.forall_mem_append.2 ⟨List.forall_mem_append.2 ⟨hsign, ?_⟩, ih⟩
        exact not_blank_of_escapes h

theorem decode_target (hs : Escapes source escapedSource)
    (ha : List.Forall₂ Escapes arguments escaped) :
    decode (Text.Utf8.encode (target escapedSource escaped)) =
      Text.Utf8.encode (target source arguments) := by
  have hmark : 37 ∉ Text.Utf8.encode "/?src=" := by decide +kernel
  have hsign : 37 ∉ Text.Utf8.encode "&" := by decide +kernel
  simp only [target, Text.Utf8.encode_append, List.append_assoc]
  rw [decode_append_of_not_mem hmark, hs.decode_append]
  congr 2
  induction ha with
  | nil => decide +kernel
  | cons h _ ih =>
      simp only [List.map_cons, String.join_cons, Text.Utf8.encode_append, List.append_assoc]
      rw [decode_append_of_not_mem hsign, h.decode_append, ih]

end Escaped

theorem toList_target (source : String) (arguments : List String) :
    (target source arguments).toList =
      sourceMark ++ (source.toList ++ (arguments.map String.toList).flatMap ('&' :: ·)) := by
  have hjoin : (String.join (arguments.map ("&" ++ ·))).toList =
      (arguments.map String.toList).flatMap ('&' :: ·) := by
    simp [String.toList_join, List.flatMap_map]
  have hmark : sourceMark = "/?src=".toList := rfl
  rw [← hjoin, hmark, target, String.toList_append, String.toList_append, List.append_assoc]

theorem tokensOfTarget_target {source : String} {arguments : List String} (hs : source ≠ "")
    (h : ∀ text ∈ source :: arguments, '&' ∉ text.toList) :
    tokensOfTarget (target source arguments).toList =
      .ok (source :: arguments.filter (frameMark.isPrefixOf ·.toList) ++ ["add"]) := by
  have htexts : ∀ t ∈ (source :: arguments).map String.toList, '&' ∉ t := List.forall_mem_map.2 h
  refine (tokensOfTarget_eq_ok_iff _ _).2
    ⟨_, source.toList, arguments.map String.toList, ?_, Text.pieces_flatMap htexts, ?_, ?_⟩
  · exact toList_target source arguments
  · exact fun he => hs (String.toList_inj.1 he)
  · simp only [List.filter_map, List.map_map, Function.comp_def, String.ofList_toList, List.map_id']
    rfl

theorem source_of_tokens {head source : String} {more : List String}
    (h : tokens head = .ok (source :: more)) : source ≠ "" ∧ '&' ∉ source.toList := by
  obtain ⟨target, h⟩ := exists_target h
  obtain ⟨query, piece, arguments, -, hp, hne, he⟩ := (tokensOfTarget_eq_ok_iff target _).1 h
  obtain ⟨rfl, -⟩ := List.cons.inj he
  constructor
  · exact fun he => hne (by simpa [← String.toList_inj] using he)
  · rw [String.toList_ofList]
    exact Text.not_mem_of_mem_pieces (hp ▸ List.mem_cons_self ..)

/-- A request whose source and arguments hold no `&` and are escaped byte by byte comes down to the
source, the arguments that say a frame count, and the word that adds, whatever headers follow. And
whatever the head of a request, its tokens are a source that is neither empty nor holds `&`, frame
counts, and that word. -/
theorem tokens_of_escaped :
    (∀ source escapedSource arguments escaped rest,
      source ≠ "" → (∀ text ∈ source :: arguments, '&' ∉ text.toList) →
      Escapes source escapedSource → List.Forall₂ Escapes arguments escaped → Ends rest →
      tokens ("GET " ++ target escapedSource escaped ++ " HTTP/1.0" ++ rest) =
        .ok (source :: arguments.filter (frameMark.isPrefixOf ·.toList) ++ ["add"])) ∧
    ∀ head ts, tokens head = .ok ts →
      ∃ source arguments, ts = source :: arguments ++ ["add"] ∧ source ≠ "" ∧
        '&' ∉ source.toList ∧ ∀ argument ∈ arguments, frameMark <+: argument.toList := by
  constructor
  · intro source escapedSource arguments escaped rest hne hamp hs ha hr
    have hnonempty : target escapedSource escaped ≠ "" := by simp [target, ← String.toList_inj]
    have hdecode : Text.Utf8.decode (decode (Text.Utf8.encode (target escapedSource escaped))) =
        .ok (target source arguments) := by
      rw [decode_target hs ha, Text.Utf8.decode_encode]
    rw [tokens_of_target (not_blank_target hs ha) hnonempty hr hdecode,
      tokensOfTarget_target hne hamp]
  · intro head ts h
    obtain ⟨source, arguments, rfl, hmarks⟩ := tokens_eq_ok h
    obtain ⟨hne, hamp⟩ := source_of_tokens h
    exact ⟨source, arguments, rfl, hne, hamp, hmarks⟩

/-- The source has blanks, line ends, signs of other kinds and what looks escaped in it. -/
theorem tokens_of_escaped_odd :
    let source := "test:a %41=?#\r\n\u00fc frames=2"
    let arguments := ["frames=7", "x=1", "", "frames=", " frames=3", "frames=b c"]
    (∀ text ∈ source :: arguments, '&' ∉ text.toList) ∧
      tokens ("GET " ++ target (escape source) (arguments.map escape) ++ " HTTP/1.0" ++
          "\r\nHost: x") =
        .ok [source, "frames=7", "frames=", "frames=b c", "add"] ∧
      tokens "GET /?src=%3a HTTP/1.0" = .ok [":", "add"] ∧
      ∃ source arguments, [":", "add"] = source :: arguments ++ ["add"] ∧ source ≠ "" := by
  intro source arguments
  have hamp : ∀ text ∈ source :: arguments, '&' ∉ text.toList := by decide
  have ha : List.Forall₂ Escapes arguments (arguments.map escape) :=
    List.forall₂_map_right_iff.2 (List.forall₂_same.2 fun a _ => escapes_escape a)
  have htokens := tokens_of_escaped.1 source _ arguments _ "\r\nHost: x" (by decide) hamp
    (escapes_escape source) ha (.inr ⟨"Host: x", rfl⟩)
  have hsmall : Escapes ":" "%3a" := by
    have hbytes : Text.Utf8.encode ":" = [58] ∧ Text.Utf8.encode "%3a" = [37, 51, 97] := by
      decide +kernel
    rw [Escapes, hbytes.1, hbytes.2]
    exact Escaped.byte (show hexValue? 51 = some 3 from rfl) (show hexValue? 97 = some 10 from rfl)
      .nil
  have hcolon : tokens "GET /?src=%3a HTTP/1.0" = .ok [":", "add"] :=
    tokens_of_escaped.1 ":" "%3a" [] [] "" (by decide) (by decide) hsmall .nil (.inl rfl)
  obtain ⟨s, as, hts, hne, -⟩ := tokens_of_escaped.2 _ _ hcolon
  exact ⟨hamp, htokens, hcolon, s, as, hts, hne⟩

end Wire.Request

end Playout
