import Mathlib.Logic.Function.Iterate
import Mathlib.Logic.Relation
import TapeMachine.Machine.Run
import TapeMachine.Proofs.Brackets
import TapeMachine.Proofs.SkipScan

/-!
# Executions

A run with fuel returns exactly when finitely many steps that go on lead to one that stops, so
statements about every run are statements about every state that steps can reach.

What one step can do is said once here: how it moves through the program, and why it may be
refused. Invariants of execution are derived from these cases and never unfold a step.
-/

namespace TapeMachine

open Relation (ReflTransGen)

section Iterate

variable {σ ε : Type} {step : σ → Except ε Progress × σ}

/-- A step that succeeds and goes on. -/
def Continues (step : σ → Except ε Progress × σ) (s t : σ) : Prop := step s = (.ok .running, t)

/-- A step with which a repetition of steps ends. -/
inductive Stops (step : σ → Except ε Progress × σ) (s : σ) : Except ε Unit → σ → Prop where
  | halted {t : σ} (h : step s = (.ok .halted, t)) : Stops step s (.ok ()) t
  | failed {e : ε} {t : σ} (h : step s = (.error e, t)) : Stops step s (.error e) t

/-- A step that goes on uses up one unit of fuel. -/
theorem iterate_of_continues {s t : σ} (h : Continues step s t) (fuel : Nat) :
    iterate step (fuel + 1) s = iterate step fuel t := by
  rw [iterate, show step s = (.ok .running, t) from h]

/-- A step that stops ends the repetition whatever fuel is left. -/
theorem iterate_of_stops {s t : σ} {r : Except ε Unit} (h : Stops step s r t) (fuel : Nat) :
    iterate step (fuel + 1) s = some (r, t) := by
  cases h with
  | halted h => rw [iterate, h]
  | failed h => rw [iterate, h]

/-- Every step goes on or stops. -/
theorem continues_or_stops (step : σ → Except ε Progress × σ) (s : σ) :
    (∃ t, Continues step s t) ∨ ∃ r t, Stops step s r t := by
  rcases h : step s with ⟨_ | progress, t⟩
  · exact .inr ⟨_, t, .failed h⟩
  · cases progress with
    | running => exact .inl ⟨t, h⟩
    | halted => exact .inr ⟨_, t, .halted h⟩

/-- Some amount of fuel is enough exactly when steps lead to one that stops. -/
theorem iterate_eq_some_iff {s t : σ} {r : Except ε Unit} :
    (∃ fuel, iterate step fuel s = some (r, t)) ↔
      ∃ u, ReflTransGen (Continues step) s u ∧ Stops step u r t := by
  refine ⟨fun hsome => ?_, fun hstops => ?_⟩
  · obtain ⟨fuel, h⟩ := hsome
    induction fuel generalizing s with
    | zero => contradiction
    | succ fuel ih =>
      rcases continues_or_stops step s with ⟨v, hv⟩ | ⟨r', t', hstop⟩
      · rw [iterate_of_continues hv] at h
        obtain ⟨u, hu, hstop⟩ := ih h
        exact ⟨u, .head hv hu, hstop⟩
      · rw [iterate_of_stops hstop] at h
        obtain ⟨rfl, rfl⟩ : r' = r ∧ t' = t := by simpa using h
        exact ⟨s, .refl, hstop⟩
  · obtain ⟨u, hu, hstop⟩ := hstops
    induction hu using ReflTransGen.head_induction_on with
    | refl => exact ⟨1, iterate_of_stops hstop 0⟩
    | head hstep _ ih =>
      obtain ⟨fuel, hfuel⟩ := ih
      exact ⟨fuel + 1, by rw [iterate_of_continues hstep, hfuel]⟩

/-- More fuel does not change how a repetition ends. -/
theorem iterate_mono {fuel fuel' : Nat} (hle : fuel ≤ fuel') {s : σ} {x : Except ε Unit × σ}
    (h : iterate step fuel s = some x) : iterate step fuel' s = some x := by
  induction fuel generalizing fuel' s with
  | zero => contradiction
  | succ fuel ih =>
    obtain ⟨more, rfl⟩ := Nat.exists_eq_add_of_le' (Nat.le_trans (Nat.le_add_left 1 fuel) hle)
    rcases continues_or_stops step s with ⟨t, ht⟩ | ⟨r, t, hstop⟩
    · rw [iterate_of_continues ht] at h ⊢
      exact ih (Nat.le_of_succ_le_succ hle) h
    · rw [iterate_of_stops hstop] at h ⊢
      exact h

/-- A repetition ends as it does from any state on its way. -/
theorem iterate_iff_of_reaches {s t : σ} (h : ReflTransGen (Continues step) s t)
    {x : Except ε Unit × σ} :
    (∃ fuel, iterate step fuel s = some x) ↔ ∃ fuel, iterate step fuel t = some x := by
  induction h using ReflTransGen.head_induction_on with
  | refl => rfl
  | head hstep _ ih =>
    rw [← ih]
    refine ⟨fun h => ?_, fun h => ?_⟩
    · obtain ⟨fuel, h⟩ := h
      cases fuel with
      | zero => contradiction
      | succ fuel => exact ⟨fuel, by rwa [iterate_of_continues hstep] at h⟩
    · obtain ⟨fuel, h⟩ := h
      exact ⟨fuel + 1, by rwa [iterate_of_continues hstep]⟩

/-- From a state that steps reach on the way to one that stops, steps go on to the one that stops. -/
theorem reaches_of_stops {s u last t : σ} {r : Except ε Unit} (hu : ReflTransGen (Continues step) s u)
    (hlast : ReflTransGen (Continues step) s last) (hstops : Stops step last r t) :
    ReflTransGen (Continues step) u last := by
  have hunique : Relator.RightUnique (Continues step) := by
    intro a b c hb hc
    exact (Prod.mk.inj (hb.symm.trans hc)).2
  rcases ReflTransGen.total_of_right_unique hunique hu hlast with h | h
  · exact h
  · rcases ReflTransGen.cases_head h with rfl | ⟨v, hv, -⟩
    · exact .refl
    · cases hstops with
      | halted hstep => exact absurd (hstep.symm.trans hv) (by simp)
      | failed hstep => exact absurd (hstep.symm.trans hv) (by simp)

/-- Steps that end alike in related states make repetitions that end alike. -/
theorem iterate_lockstep {τ : Type} {step' : τ → Except ε Progress × τ} {related : σ → τ → Prop}
    (hstep : ∀ s t, related s t → (step s).1 = (step' t).1 ∧ related (step s).2 (step' t).2)
    (fuel : Nat) {s : σ} {t : τ} (h : related s t) :
    Option.Rel (fun a b => a.1 = b.1 ∧ related a.2 b.2) (iterate step fuel s)
      (iterate step' fuel t) := by
  induction fuel generalizing s t with
  | zero => exact .none
  | succ fuel ih =>
    obtain ⟨hresult, hafter⟩ := hstep s t h
    simp only [iterate]
    generalize step s = a at hresult hafter
    generalize step' t = b at hresult hafter
    obtain ⟨r, s'⟩ := a
    obtain ⟨r', t'⟩ := b
    obtain rfl : r = r' := hresult
    cases r with
    | error e => exact .some ⟨rfl, hafter⟩
    | ok progress =>
      cases progress with
      | running => exact ih hafter
      | halted => exact .some ⟨rfl, hafter⟩

/-- Steps that are the image of other steps make repetitions that are the image of the others. -/
theorem iterate_image {τ : Type} {step' : τ → Except ε Progress × τ} {f : τ → σ}
    (hstep : ∀ t, step (f t) = ((step' t).1, f (step' t).2)) (fuel : Nat) (t : τ) :
    iterate step fuel (f t) = (iterate step' fuel t).map fun result => (result.1, f result.2) := by
  induction fuel generalizing t with
  | zero => rfl
  | succ fuel ih =>
    rw [iterate, iterate, hstep]
    rcases step' t with ⟨_ | progress, t'⟩
    · rfl
    · cases progress with
      | running => exact ih t'
      | halted => rfl

/-- Steps that are the image of other steps reach the images of what the others reach. -/
theorem reaches_image_iff {τ : Type} {step' : τ → Except ε Progress × τ} {f : τ → σ}
    (hstep : ∀ t, step (f t) = ((step' t).1, f (step' t).2)) {t : τ} {s : σ} :
    ReflTransGen (Continues step) (f t) s ↔ ∃ u, s = f u ∧ ReflTransGen (Continues step') t u := by
  refine ⟨fun h => ?_, fun h => ?_⟩
  · induction h with
    | refl => exact ⟨t, rfl, .refl⟩
    | tail _ hnext ih =>
      obtain ⟨u, rfl, hu⟩ := ih
      have himage := (hstep u).symm.trans hnext
      obtain ⟨hresult, rfl⟩ := Prod.mk.inj himage
      exact ⟨(step' u).2, rfl, hu.tail (Prod.ext hresult rfl)⟩
  · obtain ⟨u, rfl, hu⟩ := h
    refine hu.lift f fun a b hab => ?_
    exact (hstep a).trans (by rw [show step' a = (.ok .running, b) from hab])

/-- Results that are related stay so under maps that respect it. -/
theorem rel_map {α β γ δ : Type} {related : α → β → Prop} {related' : γ → δ → Prop} {f : α → γ}
    {g : β → δ} {a : Option α} {b : Option β} (h : Option.Rel related a b)
    (hmaps : ∀ x y, related x y → related' (f x) (g y)) :
    Option.Rel related' (a.map f) (b.map g) := by
  cases h with
  | none => exact .none
  | some hab => exact .some (hmaps _ _ hab)

/-- What every step preserves, also one that fails, holds where a repetition ends. -/
theorem invariant_of_iterate {inv : σ → Prop} (hstep : ∀ s, inv s → inv (step s).2) {fuel : Nat}
    {s t : σ} {r : Except ε Unit} (h : iterate step fuel s = some (r, t)) (hs : inv s) : inv t := by
  induction fuel generalizing s with
  | zero => contradiction
  | succ fuel ih =>
    have hnext := hstep s hs
    rcases continues_or_stops step s with ⟨v, hv⟩ | ⟨r', t', hstop⟩
    · rw [iterate_of_continues hv] at h
      rw [show step s = (.ok .running, v) from hv] at hnext
      exact ih h hnext
    · rw [iterate_of_stops hstop] at h
      obtain ⟨-, rfl⟩ : r' = r ∧ t' = t := by simpa using h
      cases hstop with
      | halted hlast => rwa [hlast] at hnext
      | failed hlast => rwa [hlast] at hnext

/-- The state that so many steps lead to. -/
def stateAfter (step : σ → Except ε Progress × σ) (s : σ) (n : Nat) : σ := (fun s => (step s).2)^[n] s

/-- The first so many steps all go on. -/
def GoesOn (step : σ → Except ε Progress × σ) (s : σ) (n : Nat) : Prop :=
  ∀ k < n, (step (stateAfter step s k)).1 = .ok .running

/-- One more step leads on from the last state. -/
theorem stateAfter_succ (step : σ → Except ε Progress × σ) (s : σ) (n : Nat) :
    stateAfter step s (n + 1) = (step (stateAfter step s n)).2 :=
  Function.iterate_succ_apply' _ n s

/-- Steps that go on from the state behind a first step go on from the first state. -/
theorem GoesOn.cons {s : σ} {n : Nat} (hfirst : (step s).1 = .ok .running)
    (h : GoesOn step (step s).2 n) : GoesOn step s (n + 1) := by
  intro k hk
  cases k with
  | zero => exact hfirst
  | succ k => exact h k (Nat.lt_of_succ_lt_succ hk)

/-- Steps that are the image of other steps lead to the images of their states. -/
theorem stateAfter_image {τ : Type} {step' : τ → Except ε Progress × τ} {f : τ → σ}
    (hstep : ∀ t, step (f t) = ((step' t).1, f (step' t).2)) (t : τ) (n : Nat) :
    stateAfter step (f t) n = f (stateAfter step' t n) := by
  induction n with
  | zero => rfl
  | succ n ih => rw [stateAfter_succ, stateAfter_succ, ih, hstep]

/-- Steps go on as long as the steps do that they are the image of. -/
theorem goesOn_image_iff {τ : Type} {step' : τ → Except ε Progress × τ} {f : τ → σ}
    (hstep : ∀ t, step (f t) = ((step' t).1, f (step' t).2)) {t : τ} {n : Nat} :
    GoesOn step (f t) n ↔ GoesOn step' t n := by
  simp only [GoesOn, stateAfter_image hstep, hstep]

/-- A repetition ends exactly when steps go on, for less than the fuel, to one that stops. -/
theorem iterate_eq_some_iff_goesOn {fuel : Nat} {s t : σ} {r : Except ε Unit} :
    iterate step fuel s = some (r, t) ↔
      ∃ n < fuel, GoesOn step s n ∧ Stops step (stateAfter step s n) r t := by
  refine ⟨fun h => ?_, fun h => ?_⟩
  · induction fuel generalizing s with
    | zero => contradiction
    | succ fuel ih =>
      rcases continues_or_stops step s with ⟨u, hu⟩ | ⟨r', t', hstop⟩
      · rw [iterate_of_continues hu] at h
        obtain rfl : (step s).2 = u := by rw [show step s = _ from hu]
        obtain ⟨n, hn, hgoes, hstop⟩ := ih h
        exact ⟨n + 1, Nat.succ_lt_succ hn, .cons (by rw [show step s = _ from hu]) hgoes, hstop⟩
      · rw [iterate_of_stops hstop] at h
        obtain ⟨rfl, rfl⟩ : r' = r ∧ t' = t := by simpa using h
        exact ⟨0, Nat.succ_pos _, fun k hk => absurd hk (Nat.not_lt_zero k), hstop⟩
  · obtain ⟨n, hn, hgoes, hstop⟩ := h
    obtain ⟨fuel, rfl⟩ := Nat.exists_eq_add_one_of_ne_zero (Nat.ne_zero_of_lt hn)
    induction n generalizing s fuel with
    | zero => exact iterate_of_stops hstop fuel
    | succ n ih =>
      obtain ⟨fuel, rfl⟩ := Nat.exists_eq_add_one_of_ne_zero (n := fuel) (by omega)
      have hfirst : Continues step s (step s).2 := Prod.ext (hgoes 0 (Nat.succ_pos n)) rfl
      rw [iterate_of_continues hfirst]
      exact ih (fun k hk => hgoes (k + 1) (Nat.succ_lt_succ hk)) hstop fuel (Nat.lt_of_succ_lt_succ hn)

end Iterate

/-- A flush that succeeds leaves the result of a run as it is. -/
theorem settle_ok (r : Except RuntimeError Unit) : settle r (.ok ()) = r := by
  cases r <;> rfl

namespace Machine

variable {κ : Type} [Console κ] {p : Program} {m m' : Machine} {c c' : κ}

/-- One step on a machine together with its console. -/
abbrev stepWith (p : Program) (s : Machine × κ) : Except RuntimeError Progress × Machine × κ :=
  step p s.1 s.2

/-- A step that succeeds, whether the machine goes on or has halted. -/
def Succeeds (p : Program) (s t : Machine × κ) : Prop := ∃ progress, stepWith p s = (.ok progress, t)

/-- Steps that go on are steps that succeed. -/
theorem reachable_of_continues {s t : Machine × κ}
    (h : ReflTransGen (Continues (stepWith p)) s t) : ReflTransGen (Succeeds p) s t :=
  h.lift id fun _ _ hstep => ⟨.running, hstep⟩

/-- With the header in place, a run is steps from the rewound machine and one flush. -/
theorem run_of_hasHeader (hp : p.hasHeader = true) (fuel : Nat) (m : Machine) (c : κ) :
    run fuel p m c = (iterate (stepWith p) fuel (m.rewind, c)).map fun result =>
      (settle result.1 (Console.flush result.2.2).1, result.2.1, (Console.flush result.2.2).2) := by
  rw [run, if_pos hp]
  cases iterate (stepWith p) fuel (m.rewind, c) <;> rfl

/-- With the header in place, a run returns exactly when its steps stop, and after the flush. -/
theorem run_eq_some_iff (hp : p.hasHeader = true) {r : Except RuntimeError Unit} :
    (∃ fuel, run fuel p m c = some (r, m', c')) ↔
      ∃ stopped c₀, (∃ fuel, iterate (stepWith p) fuel (m.rewind, c) = some (stopped, m', c₀)) ∧
        r = settle stopped (Console.flush c₀).1 ∧ c' = (Console.flush c₀).2 := by
  simp only [run_of_hasHeader hp, Option.map_eq_some_iff]
  refine ⟨fun h => ?_, fun h => ?_⟩
  · obtain ⟨fuel, ⟨stopped, m₀, c₀⟩, hfuel, heq⟩ := h
    simp only [Prod.mk.injEq] at heq
    obtain ⟨rfl, rfl, rfl⟩ := heq
    exact ⟨stopped, c₀, ⟨fuel, hfuel⟩, rfl, rfl⟩
  · obtain ⟨stopped, c₀, ⟨fuel, hfuel⟩, rfl, rfl⟩ := h
    exact ⟨fuel, _, hfuel, rfl⟩

/-- More fuel does not change how a run ends. -/
theorem run_mono {fuel fuel' : Nat} (hle : fuel ≤ fuel') {x : Except RuntimeError Unit × Machine × κ}
    (h : run fuel p m c = some x) : run fuel' p m c = some x := by
  by_cases hp : p.hasHeader = true
  · rw [run_of_hasHeader hp] at h ⊢
    obtain ⟨y, hiterate, rfl⟩ := Option.map_eq_some_iff.mp h
    rw [iterate_mono hle hiterate, Option.map_some]
  · rw [run, if_neg hp] at h ⊢
    exact h

/-- A run ends in one way, whatever the fuel. -/
theorem run_unique {fuel fuel' : Nat} {x y : Except RuntimeError Unit × Machine × κ}
    (hx : run fuel p m c = some x) (hy : run fuel' p m c = some y) : x = y := by
  have hmax := run_mono (Nat.le_max_left fuel fuel') hx
  rw [run_mono (Nat.le_max_right fuel fuel') hy] at hmax
  exact (Option.some.inj hmax).symm

/-- An instruction is fetched where its byte stands in a program with the header. -/
theorem fetch_eq_ok_iff {op : Opcode} :
    m.fetch p = .ok op ↔ p.hasHeader = true ∧ p.get? m.ip = some op.byte := by
  unfold fetch
  refine ⟨fun h => ?_, fun h => ?_⟩
  · split at h
    · next hp =>
      split at h
      · contradiction
      · next byte hbyte =>
        split at h
        · contradiction
        · next op' hop =>
          obtain rfl : op' = op := by simpa using h
          exact ⟨hp, by rw [hbyte, Opcode.eq_byte_of_ofByte? hop]⟩
    · contradiction
  · simp [h.1, h.2]

/-- Nothing is fetched without the header, past the end, or at a byte that is no instruction. -/
theorem fetch_eq_error {e : RuntimeError} (h : m.fetch p = .error e) :
    (p.hasHeader = false ∧ e = .missingHeader) ∨
      (p.get? m.ip = none ∧ e = .corrupted m.ip .missingHalt) ∨
        ∃ byte, p.get? m.ip = some byte ∧ Opcode.ofByte? byte = none ∧
          e = .unknownOpcode byte m.ip := by
  unfold fetch at h
  split at h
  · split at h
    · next hbyte => exact .inr (.inl ⟨hbyte, by simpa using h.symm⟩)
    · next byte hbyte =>
      split at h
      · next hop => exact .inr (.inr ⟨byte, hbyte, hop, by simpa using h.symm⟩)
      · contradiction
  · next hp => exact .inl ⟨by simpa using hp, by simpa using h.symm⟩

/-- A step on an instruction other than `halt` carries it out and moves on. -/
theorem step_of_fetch {op : Opcode} (hfetch : m.fetch p = .ok op) (hop : op ≠ .halt) (c : κ) :
    step p m c =
      match exec p op m.count c with
      | (.error e, m', c') => (.error e, m', c')
      | (.ok (), m', c') => (.ok .running, m'.next, c') := by
  rw [step, hfetch]
  cases op <;> first | rfl | contradiction

/-- A step goes on when an instruction other than `halt` is fetched and carried out. -/
theorem step_eq_running_iff :
    step p m c = (.ok .running, m', c') ↔
      ∃ op m₁, m.fetch p = .ok op ∧ op ≠ .halt ∧ exec p op m.count c = (.ok (), m₁, c') ∧
        m' = m₁.next := by
  unfold step
  refine ⟨fun h => ?_, fun h => ?_⟩
  · split at h
    · simp at h
    · simp at h
    · next op hne hop =>
      split at h
      · simp at h
      · next m₁ c₁ hexec =>
        simp only [Prod.mk.injEq, true_and] at h
        obtain ⟨rfl, rfl⟩ := h
        exact ⟨op, m₁, hop, hne, hexec, rfl⟩
  · obtain ⟨op, m₁, hop, hne, hexec, rfl⟩ := h
    rw [hop]
    cases op <;> first | contradiction | simp [hexec]

/-- A step halts on `halt` only, and changes nothing. -/
theorem step_eq_halted_iff :
    step p m c = (.ok .halted, m', c') ↔ m.fetch p = .ok .halt ∧ m' = m ∧ c' = c := by
  unfold step
  refine ⟨fun h => ?_, fun h => ?_⟩
  · split at h
    · simp at h
    · next hop =>
      simp only [Prod.mk.injEq, true_and] at h
      exact ⟨hop, h.1.symm, h.2.symm⟩
    · split at h <;> simp at h
  · obtain ⟨hop, rfl, rfl⟩ := h
    rw [hop]

/-- A step fails because nothing is fetched or because the instruction is refused. -/
theorem step_eq_error_iff {e : RuntimeError} :
    step p m c = (.error e, m', c') ↔
      (m.fetch p = .error e ∧ m' = m ∧ c' = c) ∨
        ∃ op, m.fetch p = .ok op ∧ op ≠ .halt ∧ exec p op m.count c = (.error e, m', c') := by
  unfold step
  refine ⟨fun h => ?_, fun h => ?_⟩
  · split at h
    · next e' hfetch =>
      simp only [Prod.mk.injEq, Except.error.injEq] at h
      obtain ⟨rfl, rfl, rfl⟩ := h
      exact .inl ⟨hfetch, rfl, rfl⟩
    · simp at h
    · next op hne hop =>
      split at h
      · next e' m₁ c₁ hexec =>
        simp only [Prod.mk.injEq, Except.error.injEq] at h
        obtain ⟨rfl, rfl, rfl⟩ := h
        exact .inr ⟨op, hop, hne, hexec⟩
      · simp at h
  · rcases h with ⟨hfetch, rfl, rfl⟩ | ⟨op, hop, hne, hexec⟩
    · rw [hfetch]
    · rw [hop]
      cases op <;> first | contradiction | simp [hexec]

/-- How a step that goes on moves through a program and what it does to the open loops. -/
inductive Flow (p : Program) (m m' : Machine) : Prop where
  /-- Anything but a bracket passes to the next instruction. -/
  | plain {op : Opcode} (hfetch : m.fetch p = .ok op) (hop : op.bracket? = none) (hhalt : op ≠ .halt)
      (hip : m'.ip = m.ip + 1) (hstack : m'.loopStack = m.loopStack)
  /-- A loop that is not entered is passed over. -/
  | skip {j : Nat} (hfetch : m.fetch p = .ok .loopStart) (hcell : m.currentCell = 0)
      (hend : p.loopEnd? m.ip = some j) (hip : m'.ip = j + 1) (hstack : m'.loopStack = m.loopStack)
  /-- A loop that is entered becomes the innermost open one. -/
  | enter (hfetch : m.fetch p = .ok .loopStart) (hcell : m.currentCell ≠ 0)
      (hip : m'.ip = m.ip + 1) (hstack : m'.loopStack = m.ip :: m.loopStack)
  /-- A loop that has ended is closed. -/
  | leave {start : Nat} (hfetch : m.fetch p = .ok .loopEnd) (hcell : m.currentCell = 0)
      (hip : m'.ip = m.ip + 1) (hstack : m.loopStack = start :: m'.loopStack)
  /-- A loop that goes on starts over behind its first bracket. -/
  | back {start : Nat} {outer : List Nat} (hfetch : m.fetch p = .ok .loopEnd)
      (hcell : m.currentCell ≠ 0) (hopen : m.loopStack = start :: outer) (hip : m'.ip = start + 1)
      (hstack : m'.loopStack = m.loopStack)

/-- Anything but a bracket leaves the position and the open loops alone. -/
theorem control_of_exec {op : Opcode} (hop : op.bracket? = none) (m : Machine) (c : κ) :
    (exec p op m c).2.1.ip = m.ip ∧ (exec p op m c).2.1.loopStack = m.loopStack := by
  cases op with
  | moveRight => exact ⟨rfl, rfl⟩
  | moveLeft =>
    simp only [exec]
    split <;> exact ⟨rfl, rfl⟩
  | increment => exact ⟨rfl, rfl⟩
  | decrement => exact ⟨rfl, rfl⟩
  | output =>
    simp only [exec]
    split
    · exact ⟨rfl, rfl⟩
    · split <;> exact ⟨rfl, rfl⟩
  | input =>
    simp only [exec]
    split
    · exact ⟨rfl, rfl⟩
    · split <;> exact ⟨rfl, rfl⟩
  | loopStart => contradiction
  | loopEnd => contradiction
  | halt => exact ⟨rfl, rfl⟩

/-- A step that goes on moves in one of these ways. -/
theorem flow_of_step (h : step p m c = (.ok .running, m', c')) : Flow p m m' := by
  obtain ⟨op, m₁, hop, hhalt, hexec, rfl⟩ := step_eq_running_iff.mp h
  have hplain (hside : op.bracket? = none) : Flow p m m₁.next := by
    have hcontrol := control_of_exec (p := p) hside m.count c
    rw [hexec] at hcontrol
    exact .plain hop hside hhalt (congrArg (· + 1) hcontrol.1) hcontrol.2
  cases op with
  | loopStart =>
    rw [exec_loopStart] at hexec
    split at hexec
    · next hcell =>
      split at hexec
      · simp at hexec
      · next j hend =>
        simp only [Prod.mk.injEq, true_and] at hexec
        obtain ⟨rfl, -⟩ := hexec
        exact .skip hop hcell hend rfl rfl
    · next hcell =>
      simp only [Prod.mk.injEq, true_and] at hexec
      obtain ⟨rfl, -⟩ := hexec
      exact .enter hop hcell rfl rfl
  | loopEnd =>
    simp only [exec] at hexec
    split at hexec
    · simp at hexec
    · next start outer hopen =>
      split at hexec
      · next hcell =>
        simp only [Prod.mk.injEq, true_and] at hexec
        obtain ⟨rfl, -⟩ := hexec
        exact .leave hop hcell rfl hopen
      · next hcell =>
        simp only [Prod.mk.injEq, true_and] at hexec
        obtain ⟨rfl, -⟩ := hexec
        exact .back hop hcell hopen rfl rfl
  | _ => exact hplain rfl

/-- What every move through the program preserves holds in every state that steps reach. -/
theorem invariant_of_flow {inv : Machine → Prop}
    (hflow : ∀ {m m' : Machine}, Flow p m m' → inv m → inv m') {s t : Machine × κ}
    (hreach : ReflTransGen (Succeeds p) s t) (hs : inv s.1) : inv t.1 := by
  induction hreach with
  | refl => exact hs
  | tail _ hstep ih =>
    obtain ⟨progress, hstep⟩ := hstep
    cases progress with
    | running => exact hflow (flow_of_step hstep) ih
    | halted =>
      obtain ⟨-, heq, -⟩ := step_eq_halted_iff.mp hstep
      rwa [heq]

/-- Why an instruction that was fetched is not carried out. -/
inductive Refused (p : Program) (m : Machine) : Opcode → RuntimeError → Prop where
  | underflow (hpointer : m.pointer = 0) : Refused p m .moveLeft (.pointerUnderflow m.ip)
  | noCharacter (hcell : charOfCell? m.currentCell = none) :
      Refused p m .output (.invalidCodepoint m.currentCell)
  | console {op : Opcode} (hop : op = .output ∨ op = .input) (e : IoError) : Refused p m op (.io e)
  | unclosedLoop (hcell : m.currentCell = 0) (hend : p.loopEnd? m.ip = none) :
      Refused p m .loopStart (.corrupted m.ip .unclosedLoop)
  | strayLoopEnd (hopen : m.loopStack = []) :
      Refused p m .loopEnd (.corrupted m.ip .strayLoopEnd)

/-- An instruction that is not carried out is refused for one of these reasons and leaves the
machine as it is. -/
theorem refused_of_exec {op : Opcode} {e : RuntimeError} (h : exec p op m c = (.error e, m', c')) :
    Refused p m op e ∧ m' = m := by
  cases op with
  | moveRight => simp [exec] at h
  | moveLeft =>
    simp only [exec] at h
    split at h
    · next hpointer =>
      simp only [Prod.mk.injEq, Except.error.injEq] at h
      obtain ⟨rfl, rfl, -⟩ := h
      exact ⟨.underflow hpointer, rfl⟩
    · simp at h
  | increment => simp [exec] at h
  | decrement => simp [exec] at h
  | output =>
    simp only [exec] at h
    split at h
    · next hcell =>
      simp only [Prod.mk.injEq, Except.error.injEq] at h
      obtain ⟨rfl, rfl, -⟩ := h
      exact ⟨.noCharacter hcell, rfl⟩
    · split at h
      · simp only [Prod.mk.injEq, Except.error.injEq] at h
        obtain ⟨rfl, rfl, -⟩ := h
        exact ⟨.console (.inl rfl) _, rfl⟩
      · simp at h
  | input =>
    simp only [exec] at h
    split at h
    · simp only [Prod.mk.injEq, Except.error.injEq] at h
      obtain ⟨rfl, rfl, -⟩ := h
      exact ⟨.console (.inr rfl) _, rfl⟩
    · split at h <;> simp at h
  | loopStart =>
    rw [exec_loopStart] at h
    split at h
    · next hcell =>
      split at h
      · next hend =>
        simp only [Prod.mk.injEq, Except.error.injEq] at h
        obtain ⟨rfl, rfl, -⟩ := h
        exact ⟨.unclosedLoop hcell hend, rfl⟩
      · simp at h
    · simp at h
  | loopEnd =>
    simp only [exec] at h
    split at h
    · next hopen =>
      simp only [Prod.mk.injEq, Except.error.injEq] at h
      obtain ⟨rfl, rfl, -⟩ := h
      exact ⟨.strayLoopEnd hopen, rfl⟩
    · split at h <;> simp at h
  | halt => simp [exec] at h

end Machine

end TapeMachine
