import TapeMachine.Proofs.LineReading

/-!
# Lines that were written and lines that are read

An input is written as lines, each with a terminator of its own, and a last piece without one. Reading
line after line recovers the texts of the lines, whatever the mix of terminators: a carriage return right
before a newline belongs to the terminator, and any other belongs to the text. A line that is not UTF-8
costs one read and no more. Behind the last piece nothing is read, however often it is tried, and a read
whose flush fails is as if it had not been tried.
-/

namespace TapeMachine

/-- How a line of an input ends. -/
inductive Terminator where
  | newline
  | returnNewline
deriving DecidableEq

/-- The bytes of a terminator. -/
def Terminator.bytes : Terminator → List UInt8
  | newline => [10]
  | returnNewline => [13, 10]

/-- A line of an input. A carriage return at the end of its text would belong to the terminator if that
were a newline alone. -/
structure Line where
  text : List UInt8
  terminator : Terminator
  newline_not_mem : 10 ∉ text
  getLast?_ne_return : terminator = .newline → text.getLast? ≠ some 13

/-- What reading a text gives. -/
def readAs (text : List UInt8) : Except IoError (Option String) :=
  match Text.ofBytes? text with
  | none => .error .invalidUtf8
  | some text => .ok (some text)

/-- What reading a line gives is what reading its text gives. -/
theorem lineText_eq_readAs (line : List UInt8) : lineText line = readAs (cutLine line).1 := rfl

namespace Line

/-- A line as it is written. -/
def bytes (l : Line) : List UInt8 := l.text ++ l.terminator.bytes

/-- A written line is the first line of any input that starts with it. -/
theorem firstLine (l : Line) (rest : List UInt8) : FirstLine (l.bytes ++ rest) l.bytes rest := by
  have hnot := l.newline_not_mem
  rw [bytes]
  cases l.terminator with
  | newline =>
    rw [Terminator.bytes, List.append_assoc]
    exact .ended hnot
  | returnNewline =>
    have hended : FirstLine ((l.text ++ [13]) ++ 10 :: rest) ((l.text ++ [13]) ++ [10]) rest := by
      apply FirstLine.ended
      simpa using hnot
    simpa [Terminator.bytes] using hended

/-- A written line is read as its text. -/
theorem lineText_eq (l : Line) : lineText l.bytes = readAs l.text := by
  have hcut : (cutLine l.bytes).1 = l.text := by
    have hnot := l.newline_not_mem
    have hreturn := l.getLast?_ne_return
    rw [bytes]
    cases hterminator : l.terminator with
    | newline =>
      rw [Terminator.bytes, cutLine_append hnot, dropReturn, if_neg (hreturn hterminator)]
    | returnNewline =>
      have hnot' : 10 ∉ l.text ++ [13] := by simpa using hnot
      rw [Terminator.bytes, List.append_cons, cutLine_append hnot', dropReturn, List.getLast?_concat,
        if_pos rfl, List.dropLast_concat]
  rw [lineText_eq_readAs, hcut]

/-- The pieces in which an input of lines and a last piece is read. -/
def pieces (lines : List Line) (last : List UInt8) : List (List UInt8) :=
  lines.map bytes ++ if last = [] then [] else [last]

/-- What reading the pieces gives. -/
def answers (lines : List Line) (last : List UInt8) : List (Except IoError (Option String)) :=
  lines.map (fun l => readAs l.text) ++ if last = [] then [] else [readAs last]

/-- The pieces make up the input. -/
theorem flatten_pieces (lines : List Line) (last : List UInt8) :
    (pieces lines last).flatten = lines.flatMap bytes ++ last := by
  rw [pieces, List.flatten_append, List.flatMap_def]
  split
  · next hnil => simp [hnil]
  · simp

/-- The answers to so many reads: those for the pieces of the input, and nothing from then on. -/
def answersTo (n : Nat) (lines : List Line) (last : List UInt8) : List (Except IoError (Option String)) :=
  (answers lines last).take n ++ List.replicate (n - (answers lines last).length) (.ok none)

/-- Before the first read there are no answers. -/
theorem answersTo_zero (lines : List Line) (last : List UInt8) : answersTo 0 lines last = [] := by
  rw [answersTo, List.take_zero, Nat.zero_sub, List.replicate_zero, List.append_nil]

/-- The first answer is that for the first line. -/
theorem answersTo_cons (n : Nat) (l : Line) (lines : List Line) (last : List UInt8) :
    answersTo (n + 1) (l :: lines) last = readAs l.text :: answersTo n lines last := by
  simp [answersTo, answers]

end Line

namespace Terminal

open Line (answers answersTo pieces answersTo_zero answersTo_cons flatten_pieces)

/-- Read so many lines, one after the other, also when some of them fail. -/
def readLines : Nat → Terminal → List (Except IoError (Option String)) × Terminal
  | 0, t => ([], t)
  | n + 1, t =>
    let (answer, t) := t.readLine
    let (answers, t) := readLines n t
    (answer :: answers, t)

/-- A last piece without a newline is read as it stands. -/
theorem readLine_last {last : List UInt8} (hlast : 10 ∉ last) (hne : last ≠ []) {output : Sink}
    (hout : output.Unlimited) :
    (⟨last, output⟩ : Terminal).readLine = (readAs last, ⟨[], output⟩) := by
  have hline : FirstLine last last [] := .last hlast hne
  rw [readLine_of_firstLine (t := ⟨last, output⟩) hout hline, lineText_eq_readAs,
    cutLine_of_not_mem hlast]

/-- A failing flush fails the read that it precedes, and the input is left alone. -/
theorem readLine_of_flush_error {t : Terminal} {e : IoError} (h : t.output.flush.1 = .error e) :
    t.readLine.1 = .error e ∧ t.readLine.2.input = t.input := by
  rw [readLine]
  generalize t.output.flush = flushed at h ⊢
  obtain ⟨r, out⟩ := flushed
  obtain rfl : r = .error e := h
  exact ⟨rfl, rfl⟩

/-- The first read gets the first line, and the others what comes behind it. -/
theorem readLines_cons (l : Line) (input : List UInt8) {output : Sink} (hout : output.Unlimited) (n : Nat) :
    (⟨l.bytes ++ input, output⟩ : Terminal).readLines (n + 1) =
      (readAs l.text :: ((⟨input, output⟩ : Terminal).readLines n).1,
        ((⟨input, output⟩ : Terminal).readLines n).2) := by
  have hread := readLine_of_firstLine (t := ⟨l.bytes ++ input, output⟩) hout (l.firstLine input)
  rw [readLines, hread, l.lineText_eq]

/-- From an input that is used up nothing is read, however often. -/
theorem readLines_nil {output : Sink} (hout : output.Unlimited) (n : Nat) :
    (⟨[], output⟩ : Terminal).readLines n = (List.replicate n (.ok none), ⟨[], output⟩) := by
  induction n with
  | zero => rfl
  | succ n ih =>
    rw [readLines, readLine_of_nil (t := ⟨[], output⟩) hout rfl, List.replicate_succ]
    dsimp only
    rw [ih]

/-- Any number of reads from an input of lines and a last piece give the texts of the lines, an error
where one is not UTF-8, the last piece as it stands and then nothing. Each read takes the next piece,
and leaves the input alone if its flush fails. -/
theorem readLines_recovers (lines : List Line) {last : List UInt8} (hlast : 10 ∉ last) {output : Sink}
    (hout : output.Unlimited) (n : Nat) :
    (⟨lines.flatMap Line.bytes ++ last, output⟩ : Terminal).readLines n =
        (answersTo n lines last, ⟨((pieces lines last).drop n).flatten, output⟩) ∧
      ∀ (t : Terminal) (e : IoError), t.output.flush.1 = .error e →
        t.readLine.1 = .error e ∧ t.readLine.2.input = t.input := by
  refine ⟨?_, fun t e h => readLine_of_flush_error h⟩
  induction lines generalizing n with
  | nil =>
    by_cases hne : last = []
    · subst hne
      simp [answersTo, answers, pieces, readLines_nil hout]
    · cases n with
      | zero => rw [readLines, answersTo_zero, List.drop_zero, flatten_pieces]
      | succ n =>
        rw [List.flatMap_nil, List.nil_append, readLines, readLine_last hlast hne hout]
        simp [answersTo, answers, pieces, hne, readLines_nil hout]
  | cons l lines ih =>
    cases n with
    | zero => rw [readLines, answersTo_zero, List.drop_zero, flatten_pieces]
    | succ n =>
      rw [List.flatMap_cons, List.append_assoc, readLines_cons l _ hout, ih, answersTo_cons]
      rfl

/-- A line of one letter in two bytes before a carriage return and a newline, a line that is not UTF-8, an
empty line, and a last piece with a carriage return, from which the fourth read takes it. -/
theorem readLines_recovers_mixed :
    (⟨[195, 169, 13, 10, 255, 10, 10, 120, 13], {}⟩ : Terminal).readLines 6 =
        ([.ok (some "é"), .error .invalidUtf8, .ok (some ""), .ok (some "x\r"), .ok none, .ok none],
          ⟨[], {}⟩) ∧
      (⟨[195, 169, 13, 10, 255, 10, 10, 120, 13], {}⟩ : Terminal).readLines 2 =
        ([.ok (some "é"), .error .invalidUtf8], ⟨[10, 120, 13], {}⟩) ∧
      (⟨[120], { flushBudget := some 0 }⟩ : Terminal).readLine.2.input = [120] := by
  let lines : List Line :=
    [⟨[195, 169], .returnNewline, by decide, by decide⟩, ⟨[255], .newline, by decide, by decide⟩,
      ⟨[], .newline, by decide, by decide⟩]
  have hlast : (10 : UInt8) ∉ [120, 13] := by decide
  have hout : ({} : Sink).Unlimited := ⟨rfl, rfl⟩
  have hrecovers := readLines_recovers lines hlast hout
  have hall : answersTo 6 lines [120, 13] =
      [.ok (some "é"), .error .invalidUtf8, .ok (some ""), .ok (some "x\r"), .ok none, .ok none] := by
    decide +kernel
  have hsome : answersTo 2 lines [120, 13] = [.ok (some "é"), .error .invalidUtf8] := by
    decide +kernel
  refine ⟨?_, ?_, ?_⟩
  · rw [← hall]
    exact (hrecovers 6).1
  · rw [← hsome]
    exact (hrecovers 2).1
  · exact ((hrecovers 0).2 ⟨[120], { flushBudget := some 0 }⟩ .flushRefused rfl).2

end Terminal

end TapeMachine
