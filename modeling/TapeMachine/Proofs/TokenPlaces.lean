import Mathlib.Data.List.ReduceOption
import TapeMachine.Proofs.Places

/-!
# Where the tokens of a text stand

The tokens of a text can be read off the text alone: one at each instruction character, with the place
that the text before it gives. A lexer yields these tokens in order, one with each call, and then nothing
more. It reads no further than the token that it yields, so between two calls its place is the one behind
the last token, or behind the whole text once there was no token left.

A text that stands behind another one keeps its tokens. Their lines follow on the last line of the text
before, and so do the columns of those that stand on its first line.
-/

namespace TapeMachine

namespace Place

/-- Where a place of a text comes to lie when the text stands behind `p`. -/
def shift (p q : Place) : Place where
  line := p.line + (q.line - 1)
  column := if q.line = 1 then p.column + (q.column - 1) else q.column
  offset := p.offset + q.offset

/-- A code point moves the place on in the same way wherever its text stands. -/
theorem shift_after (p : Place) {q : Place} (hline : 1 ≤ q.line) (hcolumn : 1 ≤ q.column) (c : Char) :
    p.shift (q.after c) = (p.shift q).after c := by
  by_cases hc : c = '\n'
  · have hnext : q.line + 1 ≠ 1 := by omega
    simp only [after, shift, if_pos hc, if_neg hnext, Place.mk.injEq, true_and]
    omega
  · simp only [after, shift, if_neg hc, Place.mk.injEq, true_and]
    split <;> omega

/-- The place behind two texts is the place behind the second, shifted by the first. -/
theorem behind_append (a b : List Char) : behind (a ++ b) = (behind a).shift (.behind b) := by
  induction b using List.reverseRecOn with
  | nil => simp [behind, shift]
  | append_singleton b c ih =>
    have hline : 1 ≤ (behind b).line := Nat.le_add_right _ _
    have hcolumn : 1 ≤ (behind b).column := Nat.le_add_right _ _
    rw [← List.append_assoc, ← after_behind, ih, ← shift_after _ hline hcolumn, after_behind]

end Place

/-- A token when its text stands behind `p`. -/
def Token.shift (p : Place) (t : Token) : Token :=
  let q := p.shift { line := t.line, column := t.column }
  ⟨t.opcode, q.line, q.column⟩

/-- The token at an index of a text, if an instruction character stands there. -/
def tokenAt? (text : List Char) (i : Nat) : Option Token :=
  (text[i]?.bind Opcode.ofChar?).map fun op =>
    ⟨op, (Place.behind (text.take i)).line, (Place.behind (text.take i)).column⟩

/-- The tokens of a text, in the order in which they stand. -/
def tokensOf (text : List Char) : List Token := (List.range text.length).filterMap (tokenAt? text)

/-- Behind the text before it, the next character is the token at its index or a comment. -/
theorem tokenAt?_length (taken cs : List Char) (c : Char) :
    tokenAt? (taken ++ c :: cs) taken.length = (Opcode.ofChar? c).map fun op =>
      ⟨op, (Place.behind taken).line, (Place.behind taken).column⟩ := by
  simp [tokenAt?]

/-- What follows a text changes none of its tokens. -/
theorem tokenAt?_append_left (a b : List Char) {i : Nat} (hi : i < a.length) :
    tokenAt? (a ++ b) i = tokenAt? a i := by
  rw [tokenAt?, List.getElem?_append_left hi, List.take_append_of_le_length (Nat.le_of_lt hi), tokenAt?]

/-- What stands before a text shifts its tokens. -/
theorem tokenAt?_append_right (a b : List Char) (i : Nat) :
    tokenAt? (a ++ b) (a.length + i) = (tokenAt? b i).map (Token.shift (.behind a)) := by
  rw [tokenAt?, List.getElem?_append_right (Nat.le_add_right _ _), Nat.add_sub_cancel_left,
    List.take_length_add_append, Place.behind_append, tokenAt?, Option.map_map]
  rfl

/-- The tokens of two texts are those of the first and, shifted, those of the second. -/
theorem tokensOf_append (a b : List Char) :
    tokensOf (a ++ b) = tokensOf a ++ (tokensOf b).map (Token.shift (.behind a)) := by
  rw [tokensOf, List.length_append, List.range_add, List.filterMap_append, List.filterMap_map, tokensOf,
    tokensOf, List.map_filterMap]
  congr 1
  · apply List.filterMap_congr
    intro i hi
    exact tokenAt?_append_left a b (List.mem_range.mp hi)
  · apply List.filterMap_congr
    intro i _
    exact tokenAt?_append_right a b i

namespace Lexer

/-- From a place in a text on, the lexer finds the tokens of what is left. -/
theorem tokensFrom_behind (taken cs : List Char) :
    tokensFrom (.behind taken) cs =
      (List.range' taken.length cs.length).filterMap (tokenAt? (taken ++ cs)) := by
  induction cs generalizing taken with
  | nil => rfl
  | cons c cs ih =>
    have hrest := ih (taken ++ [c])
    rw [← Place.after_behind, List.length_append, List.length_singleton, ← List.append_cons] at hrest
    rw [tokensFrom, List.length_cons, List.range'_succ, List.filterMap_cons, tokenAt?_length, hrest]
    cases Opcode.ofChar? c <;> rfl

/-- The tokens that a lexer finds in a source are those of its text. -/
theorem tokens_ofString (source : String) : (ofString source).tokens = tokensOf source.toList := by
  have htokens := tokensFrom_behind [] source.toList
  rw [List.length_nil, List.nil_append, ← List.range_eq_range'] at htokens
  exact htokens

/-- A text holds so many instruction characters and ends with the last of them; with none it is empty. -/
structure EndsWithToken (n : Nat) (text : List Char) : Prop where
  length_eq : (text.filterMap Opcode.ofChar?).length = n
  last : ∀ c ∈ text.getLast?, (Opcode.ofChar? c).isSome

namespace EndsWithToken

/-- The empty text holds no instruction characters. -/
theorem nil : EndsWithToken 0 [] := ⟨rfl, by simp⟩

/-- Comments and a further instruction character can stand in front. -/
theorem prepend {n : Nat} {text comments : List Char} {c : Char} {op : Opcode} (h : EndsWithToken n text)
    (hcomments : comments.filterMap Opcode.ofChar? = []) (hop : Opcode.ofChar? c = some op) :
    EndsWithToken (n + 1) (comments ++ c :: text) := by
  constructor
  · rw [List.filterMap_append, hcomments, List.nil_append, List.filterMap_cons_some hop,
      List.length_cons, h.length_eq]
  · intro d hd
    rw [List.getLast?_append, List.getLast?_cons, Option.some_or] at hd
    obtain rfl := Option.some.inj hd
    cases hlast : text.getLast? with
    | none =>
      change (Opcode.ofChar? c).isSome = true
      rw [hop]
      rfl
    | some e => exact h.last e hlast

end EndsWithToken

/-- What one call for a token reads, behind what was taken before: comments up to a token, or all that
is left when there is none. -/
inductive Reads (taken : List Char) : List Char → Option Token → Lexer → Prop where
  | token (comments : List Char) {c : Char} {cs : List Char} {op : Opcode}
      (hcomments : comments.filterMap Opcode.ofChar? = []) (hop : Opcode.ofChar? c = some op) :
      Reads taken (comments ++ c :: cs)
        (some ⟨op, (Place.behind (taken ++ comments)).line, (Place.behind (taken ++ comments)).column⟩)
        ⟨.behind (taken ++ (comments ++ [c])), cs⟩
  | nothing {cs : List Char} (hcomments : cs.filterMap Opcode.ofChar? = []) :
      Reads taken cs none ⟨.behind (taken ++ cs), []⟩

/-- A comment in front of what is read is read as well. -/
theorem Reads.comment {taken cs : List Char} {c : Char} {answer : Option Token} {l : Lexer}
    (hc : Opcode.ofChar? c = none) (h : Reads (taken ++ [c]) cs answer l) :
    Reads taken (c :: cs) answer l := by
  cases h with
  | token comments hcomments hop =>
    rw [← List.append_cons, ← List.append_cons]
    exact .token (c :: comments) (by rw [List.filterMap_cons_none hc, hcomments]) hop
  | nothing hcomments =>
    rw [← List.append_cons]
    exact .nothing (by rw [List.filterMap_cons_none hc, hcomments])

/-- A call reads on from where the lexer stands. -/
theorem reads_scan (taken cs : List Char) :
    Reads taken cs (scan (.behind taken) cs).1 (scan (.behind taken) cs).2 := by
  induction cs generalizing taken with
  | nil =>
    have hnothing : Reads taken [] none ⟨.behind (taken ++ []), []⟩ := .nothing rfl
    rwa [List.append_nil] at hnothing
  | cons c cs ih =>
    rw [scan, Place.after_behind]
    cases hop : Opcode.ofChar? c with
    | none => exact (ih (taken ++ [c])).comment hop
    | some op =>
      have htoken : Reads taken (c :: cs)
          (some ⟨op, (Place.behind (taken ++ [])).line, (Place.behind (taken ++ [])).column⟩)
          ⟨.behind (taken ++ [c]), cs⟩ := .token [] rfl hop
      rwa [List.append_nil] at htoken

/-- What so many calls for the next token return, and the lexer after them. -/
def nextTokens : Nat → Lexer → List (Option Token) × Lexer
  | 0, l => ([], l)
  | n + 1, l =>
    let (answer, l) := l.next?
    let (answers, l) := nextTokens n l
    (answer :: answers, l)

/-- A lexer that finds no token stands at the end of its text. -/
theorem rest_of_next?_none {l l' : Lexer} (h : l.next? = (none, l')) : l'.rest = [] := by
  obtain ⟨p, cs⟩ := l
  rw [next?] at h
  induction cs generalizing p with
  | nil =>
    obtain ⟨-, rfl⟩ := Prod.mk.inj h
    rfl
  | cons c cs ih =>
    rw [scan] at h
    split at h
    · exact absurd (Prod.mk.inj h).1 (by simp)
    · exact ih _ h

/-- At the end of its text a lexer returns nothing, however often it is called. -/
theorem nextTokens_of_rest_nil {l : Lexer} (h : l.rest = []) (n : Nat) :
    l.nextTokens n = (List.replicate n none, l) := by
  have hnext : l.next? = (none, l) := by
    obtain ⟨p, cs⟩ := l
    obtain rfl : cs = [] := h
    rfl
  induction n with
  | zero => rfl
  | succ n ih =>
    rw [nextTokens, hnext, List.replicate_succ]
    dsimp only
    rw [ih]

/-- Each call returns the next of the tokens that are left, and nothing from their end on. -/
theorem nextTokens_fst (n : Nat) (l : Lexer) :
    (l.nextTokens n).1 = (List.range n).map fun i => l.tokens[i]? := by
  induction n generalizing l with
  | zero => rfl
  | succ n ih =>
    have htokens := l.tokens_eq_of_next?
    rw [nextTokens, List.range_succ_eq_map, List.map_cons, List.map_map]
    generalize hnext : l.next? = called at htokens ⊢
    obtain ⟨_ | token, l'⟩ := called
    · have hnone : l'.tokens = [] := by rw [tokens, rest_of_next?_none hnext, tokensFrom]
      dsimp only at htokens ⊢
      rw [ih, htokens, hnone]
      rfl
    · dsimp only at htokens ⊢
      rw [ih, htokens]
      rfl

/-- Taking tokens is calling for them and leaving out where there was none. -/
theorem take_eq_nextTokens (n : Nat) (l : Lexer) :
    l.take n = ((l.nextTokens n).1.reduceOption, (l.nextTokens n).2) := by
  induction n generalizing l with
  | zero => rfl
  | succ n ih =>
    rw [take, nextTokens]
    generalize hnext : l.next? = called
    obtain ⟨_ | token, l'⟩ := called
    · dsimp only
      rw [nextTokens_of_rest_nil (rest_of_next?_none hnext), List.reduceOption_cons_of_none,
        List.reduceOption_replicate_none]
    · dsimp only
      rw [ih, List.reduceOption_cons_of_some]

/-- Behind what was taken before, calls take the text through the last token that they return, or all of
it once they return nothing. -/
theorem exists_read {l : Lexer} {taken : List Char} (hplace : l.place = .behind taken) (n : Nat) :
    ∃ read, l.rest = read ++ (l.nextTokens n).2.rest ∧
      (l.nextTokens n).2.place = .behind (taken ++ read) ∧
      (none ∈ (l.nextTokens n).1 → (l.nextTokens n).2.rest = []) ∧
      (none ∉ (l.nextTokens n).1 → EndsWithToken n read) := by
  induction n generalizing l taken with
  | zero => exact ⟨[], rfl, by rwa [List.append_nil], by simp [nextTokens], fun _ => .nil⟩
  | succ n ih =>
    have hreads := reads_scan taken l.rest
    rw [← hplace, ← next?] at hreads
    rw [nextTokens]
    generalize l.next? = called at hreads ⊢
    obtain ⟨answer, l'⟩ := called
    generalize l.rest = rest at hreads ⊢
    dsimp only at hreads ⊢
    cases hreads with
    | nothing hcomments =>
      rw [nextTokens_of_rest_nil rfl]
      exact ⟨rest, (List.append_nil rest).symm, rfl, fun _ => rfl, by simp⟩
    | @token comments c cs op hcomments hop =>
      obtain ⟨read, hread, hplace', hall, hends⟩ :=
        ih (l := ⟨.behind (taken ++ (comments ++ [c])), cs⟩) rfl
      refine ⟨comments ++ c :: read, ?_, ?_, fun hnone => hall (by simpa using hnone), fun hnone => ?_⟩
      · rw [List.append_assoc, List.cons_append, ← hread]
      · rw [hplace']
        simp only [List.append_assoc, List.singleton_append]
      · exact (hends (by simpa using hnone)).prepend hcomments hop

/-- Whatever the number of calls, each returns the token at the next instruction character of the source,
with the line and the column that the text before it gives, and nothing once there is none left. What was
taken then is the text through the last token that was returned, or all of it once nothing was, and the
lexer has its place and its offset behind that. The tokens of a source with more text behind it are those
of the source and those of the further text, shifted by where the source ends. -/
theorem nextTokens_exact (source : String) (n : Nat) :
    ((ofString source).nextTokens n).1 = (List.range n).map (fun i => (tokensOf source.toList)[i]?) ∧
      (∃ taken, source.toList = taken ++ ((ofString source).nextTokens n).2.rest ∧
        ((ofString source).nextTokens n).2.place = .behind taken ∧
        (none ∈ ((ofString source).nextTokens n).1 → taken = source.toList) ∧
        (none ∉ ((ofString source).nextTokens n).1 → EndsWithToken n taken)) ∧
      (ofString source).take n =
        (((ofString source).nextTokens n).1.reduceOption, ((ofString source).nextTokens n).2) ∧
      (ofString source).tokens = tokensOf source.toList ∧
      ∀ more : String, (ofString (source ++ more)).tokens =
        (ofString source).tokens ++ (ofString more).tokens.map (Token.shift (.behind source.toList)) := by
  refine ⟨?_, ?_, take_eq_nextTokens n _, tokens_ofString source, fun more => ?_⟩
  · rw [nextTokens_fst, tokens_ofString]
  · have hstart : (ofString source).place = .behind [] := rfl
    obtain ⟨taken, htext, hplace, hall, hends⟩ := exists_read hstart n
    refine ⟨taken, htext, hplace, fun hnone => ?_, hends⟩
    rw [hall hnone, List.append_nil] at htext
    exact htext.symm
  · rw [tokens_ofString, tokens_ofString, tokens_ofString, String.toList_append, tokensOf_append]

/-- A comment before the first token, and a newline and blanks before the others. -/
example : ((ofString "a+\n  [b]").nextTokens 4).1 =
    [some ⟨.increment, 1, 2⟩, some ⟨.loopStart, 2, 3⟩, some ⟨.loopEnd, 2, 5⟩, none] := by rfl

/-- A letter of two bytes is one code point. -/
example : ((ofString "é+").nextTokens 1).2.place = ⟨1, 3, 2⟩ := by rfl

end Lexer

end TapeMachine
