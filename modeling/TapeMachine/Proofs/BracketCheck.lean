import TapeMachine.Proofs.Places
import TapeMachine.Proofs.SourceText

/-!
# What the bracket check reports

The check decides whether the brackets of a text form a Dyck word: no start of the text has more
closing brackets than opening ones, and the whole text has as many of each. Otherwise it names one
bracket with its place in the source. A closing bracket without a partner is named as it is met, and an
opening one only at the end, from the places of all that are still open. The places that the scan keeps
are those of the brackets that the text read so far leaves open, innermost first.
-/

namespace TapeMachine

/-- More brackets are closed than were opened. -/
def Overclosed (text : List Char) : Prop := text.count '[' < text.count ']'

/-- The brackets of a text form a Dyck word. -/
structure Dyck (text : List Char) : Prop where
  not_overclosed : ∀ start, start <+: text → ¬ Overclosed start
  count_eq : text.count '[' = text.count ']'

/-- An opening bracket is closed in the text behind it, by the bracket behind a Dyck word. -/
def ClosedIn (text : List Char) : Prop := ∃ body rest, text = body ++ ']' :: rest ∧ Dyck body

/-- One character alone is an opening bracket. -/
theorem bracketOfChar?_eq_opening {c : Char} : bracketOfChar? c = some .opening ↔ c = '[' := by
  refine ⟨fun h => ?_, fun h => h ▸ rfl⟩
  obtain ⟨op, hop, hside⟩ := Option.bind_eq_some_iff.mp h
  obtain rfl := Opcode.bracket?_eq_opening.mp hside
  exact (Option.some.inj (Opcode.ofChar?_eq_some_iff.mp hop)).symm

/-- One character alone is a closing bracket. -/
theorem bracketOfChar?_eq_closing {c : Char} : bracketOfChar? c = some .closing ↔ c = ']' := by
  refine ⟨fun h => ?_, fun h => h ▸ rfl⟩
  obtain ⟨op, hop, hside⟩ := Option.bind_eq_some_iff.mp h
  obtain rfl := Opcode.bracket?_eq_closing.mp hside
  exact (Option.some.inj (Opcode.ofChar?_eq_some_iff.mp hop)).symm

/-- The count of open brackets is the difference of two counts, and it fails where a start of the text
closes more than was open. -/
theorem depth?_eq_some_iff_count {d e : Nat} {text : List Char} :
    depth? bracketOfChar? d text = some e ↔
      (∀ start, start <+: text → start.count ']' ≤ d + start.count '[') ∧
        d + text.count '[' = e + text.count ']' := by
  rw [depth?_eq_some_iff_countSide]
  simp only [countSide_eq_count bracketOfChar?_eq_opening, countSide_eq_count bracketOfChar?_eq_closing]

/-- A text that can be counted through is overclosed nowhere. -/
theorem not_overclosed_of_depth? {text start : List Char} {e : Nat}
    (h : depth? bracketOfChar? 0 text = some e) (hstart : start <+: text) : ¬ Overclosed start := by
  have hle := (depth?_eq_some_iff_count.mp h).1 start hstart
  rw [Overclosed]
  omega

/-- Dyck words are the words of the grammar of loops. -/
theorem balanced_iff_dyck {text : List Char} : Balanced bracketOfChar? text ↔ Dyck text := by
  rw [balanced_iff_depth?]
  refine ⟨fun h => ⟨fun start => not_overclosed_of_depth? h, ?_⟩, fun h => ?_⟩
  · have hcount := (depth?_eq_some_iff_count.mp h).2
    omega
  · refine depth?_eq_some_iff_count.mpr ⟨fun start hstart => ?_, ?_⟩
    · have hnot := h.not_overclosed start hstart
      rw [Overclosed] at hnot
      omega
    · rw [h.count_eq]

/-- A Dyck word and one more closing bracket are overclosed. -/
theorem Dyck.overclosed_append {text : List Char} (h : Dyck text) : Overclosed (text ++ [']']) := by
  have hcount := h.count_eq
  simp [Overclosed]
  omega

/-- A bracket at fault at the place behind a text. -/
def Unbalanced.behind (bracket : Bracket) (text : List Char) : Unbalanced :=
  ⟨bracket, (Place.behind text).line, (Place.behind text).column⟩

namespace Lexer

/-- What the check of a text comes to, behind what was taken from the source before. -/
inductive Verdict (taken text : List Char) : Except Unbalanced Unit → Prop where
  | balanced (h : Balanced bracketOfChar? text) : Verdict taken text (.ok ())
  | closing {u v : List Char} (htext : text = u ++ ']' :: v) (hu : Balanced bracketOfChar? u) :
      Verdict taken text (.error (.behind .closing (taken ++ u)))
  | opening {u v : List Char} {opened : List Nat} (htext : text = u ++ '[' :: v)
      (hu : LeavesOpen bracketOfChar? taken.length opened u) (hv : Balanced bracketOfChar? v) :
      Verdict taken text (.error (.behind .opening (taken ++ u)))

/-- From a place at which certain brackets are open, the check comes to a verdict on the whole text. -/
theorem verdict_of_balanceFrom {taken u cs whole : List Char} {opened : List Nat}
    (hopened : LeavesOpen bracketOfChar? taken.length opened u) (hwhole : whole = taken ++ (u ++ cs)) :
    Verdict taken (u ++ cs)
      (balanceFrom (.behind (taken ++ u)) (opened.map fun i => .behind (whole.take i)) cs).1 := by
  induction cs generalizing u opened with
  | nil =>
    cases opened with
    | nil =>
      rw [List.append_nil]
      exact .balanced hopened
    | cons i opened =>
      -- The innermost open bracket stands right behind the text that leaves the others open.
      obtain ⟨u', a, v, rfl, ha, rfl, hv, hu'⟩ := hopened
      obtain rfl := bracketOfChar?_eq_opening.mp ha
      have hplace : whole.take (taken.length + u'.length) = taken ++ u' := by
        rw [hwhole, ← List.length_append, List.append_nil, ← List.append_assoc, List.take_left]
      simp only [List.map_cons, balanceFrom, hplace]
      exact .opening (by simp) hu' hv
  | cons c cs ih =>
    have hmove : (Place.behind (taken ++ u)).after c = .behind (taken ++ (u ++ [c])) := by
      rw [Place.after_behind, List.append_assoc]
    have hassoc : u ++ c :: cs = (u ++ [c]) ++ cs := by simp
    rw [hassoc] at hwhole ⊢
    cases hside : bracketOfChar? c with
    | none =>
      rw [balanceFrom_plain hside, hmove]
      exact ih (hopened.append (.plain hside .nil)) hwhole
    | some bracket =>
      cases bracket with
      | opening =>
        have hplace : whole.take (taken.length + u.length) = taken ++ u := by
          rw [hwhole, ← List.length_append, List.append_assoc u, ← List.append_assoc, List.take_left]
        have hnext := ih (hopened.push hside) hwhole
        rw [List.map_cons, hplace] at hnext
        rwa [balanceFrom_opening hside, hmove]
      | closing =>
        rw [balanceFrom_closing hside, hmove]
        cases opened with
        | nil =>
          obtain rfl := bracketOfChar?_eq_closing.mp hside
          exact .closing hassoc.symm hopened
        | cons i opened => exact ih (hopened.pop hside) hwhole

/-- The check of what is left comes to a verdict on it. -/
theorem StandsIn.verdict {text : List Char} {l : Lexer} (h : StandsIn text l) :
    ∃ taken, text = taken ++ l.rest ∧ Verdict taken l.rest l.checkBalanced.1 := by
  obtain ⟨taken, htext, hplace⟩ := h
  have hopened : LeavesOpen bracketOfChar? taken.length [] [] := .nil
  have hwhole : text = taken ++ ([] ++ l.rest) := htext
  have hverdict := verdict_of_balanceFrom hopened hwhole
  rw [List.append_nil, ← hplace] at hverdict
  exact ⟨taken, htext, hverdict⟩

namespace Verdict

variable {taken text : List Char} {r : Except Unbalanced Unit}

/-- Where a start of the text is overclosed, the bracket behind the first Dyck word is at fault. -/
theorem of_overclosed (h : Verdict taken text r) {start : List Char} (hstart : start <+: text)
    (hover : Overclosed start) :
    ∃ u v, text = u ++ ']' :: v ∧ Overclosed (u ++ [']']) ∧
      (∀ start, start <+: u → ¬ Overclosed start) ∧ r = .error (.behind .closing (taken ++ u)) := by
  cases h with
  | balanced h => exact absurd hover ((balanced_iff_dyck.mp h).not_overclosed start hstart)
  | @closing u v htext hu =>
    have hdyck := balanced_iff_dyck.mp hu
    exact ⟨u, v, htext, hdyck.overclosed_append, hdyck.not_overclosed, rfl⟩
  | @opening u v opened htext hu hv =>
    have hopen : LeavesOpen bracketOfChar? taken.length ((taken.length + u.length) :: opened)
        (u ++ '[' :: v) := ⟨u, '[', v, rfl, rfl, rfl, hv, hu⟩
    rw [← htext] at hopen
    exact absurd hover (not_overclosed_of_depth? hopen.depth?_eq hstart)

/-- Where no start of the text is overclosed, the last bracket that is not closed is at fault. -/
theorem of_unclosed (h : Verdict taken text r) (hnot : ∀ start, start <+: text → ¬ Overclosed start)
    (hdyck : ¬ Dyck text) :
    ∃ u v, text = u ++ '[' :: v ∧ ¬ ClosedIn v ∧ (∀ v₁ v₂, v = v₁ ++ '[' :: v₂ → ClosedIn v₂) ∧
      r = .error (.behind .opening (taken ++ u)) := by
  cases h with
  | balanced h => exact absurd (balanced_iff_dyck.mp h) hdyck
  | @closing u v htext hu =>
    have hover := (balanced_iff_dyck.mp hu).overclosed_append
    exact absurd hover (hnot _ ⟨v, by simp [htext]⟩)
  | @opening u v opened htext hu hv =>
    refine ⟨u, v, htext, fun hclosed => ?_, fun v₁ v₂ hv₂ => ?_, rfl⟩
    · obtain ⟨body, rest, rfl, hbody⟩ := hclosed
      exact not_closing_of_depth? (balanced_iff_dyck.mpr hbody) rfl (balanced_iff_depth?.mp hv)
    · subst hv₂
      obtain ⟨body, b, rest, rfl, hbody, hb⟩ := hv.exists_closing rfl
      obtain rfl := bracketOfChar?_eq_closing.mp hb
      exact ⟨body, rest, rfl, balanced_iff_dyck.mp hbody⟩

end Verdict

/-- The lexer of a source text from which some tokens were taken. -/
def afterTokens (source : String) (n : Nat) : Lexer := ((ofString source).take n).2

/-- Whatever number of tokens was taken, the check of the rest passes exactly when its brackets form a
Dyck word. If some start of the rest closes more than it opens, the first bracket with which this
happens is reported, and otherwise the last opening bracket that is not closed, each with its place in
the whole source. -/
theorem checkBalanced_exact (source : String) (n : Nat) :
    ∃ taken rest, source.toList = taken ++ rest ∧ rest = (afterTokens source n).rest ∧
      ((afterTokens source n).checkBalanced.1 = .ok () ↔ Dyck rest) ∧
      ((∃ start, start <+: rest ∧ Overclosed start) →
        ∃ u v, rest = u ++ ']' :: v ∧ Overclosed (u ++ [']']) ∧
          (∀ start, start <+: u → ¬ Overclosed start) ∧
          (afterTokens source n).checkBalanced.1 = .error (.behind .closing (taken ++ u))) ∧
      ((∀ start, start <+: rest → ¬ Overclosed start) → ¬ Dyck rest →
        ∃ u v, rest = u ++ '[' :: v ∧ ¬ ClosedIn v ∧
          (∀ v₁ v₂, v = v₁ ++ '[' :: v₂ → ClosedIn v₂) ∧
          (afterTokens source n).checkBalanced.1 = .error (.behind .opening (taken ++ u))) := by
  obtain ⟨taken, htext, hverdict⟩ := ((standsIn_ofString source).take n).verdict
  have hok : (afterTokens source n).checkBalanced.1 = .ok () ↔ Dyck (afterTokens source n).rest := by
    rw [checkBalanced, balanceFrom_eq_ok_iff, List.length_nil, ← balanced_iff_depth?, balanced_iff_dyck]
  refine ⟨taken, _, htext, rfl, hok, fun hover => ?_, fun hnot hdyck => hverdict.of_unclosed hnot hdyck⟩
  obtain ⟨start, hstart, hover⟩ := hover
  exact hverdict.of_overclosed hstart hover

/-- A closing bracket without a partner, behind a token, a newline and a letter of two bytes. -/
example : (afterTokens "+\né]" 1).checkBalanced.1 = .error ⟨.closing, 2, 2⟩ := by rfl

/-- The brackets that were taken as tokens do not count, and of two that stay open the last is named. -/
example : (afterTokens "][\n [ []" 1).checkBalanced.1 = .error ⟨.opening, 2, 2⟩ := by rfl

end Lexer

end TapeMachine
