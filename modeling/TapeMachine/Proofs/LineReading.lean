import Mathlib.Data.List.Basic
import Mathlib.Data.List.TakeWhile
import TapeMachine.Proofs.ConsoleDemand

/-!
# Reading lines

Reading takes the first line of the input, with its terminator, and leaves the rest. What is read
depends on the line only: with other input behind it the same line is read and that input is left,
unless the line has no terminator and is read up to the end. In UTF-8 the bytes of newlines and
carriage returns occur as these characters only, so the lines of a text are texts and so is the rest
behind them.
-/

namespace TapeMachine

/-- The first line of an input, with its terminator, and what comes behind it. -/
inductive FirstLine : (input line rest : List UInt8) → Prop where
  | ended {text rest : List UInt8} (h : 10 ∉ text) : FirstLine (text ++ 10 :: rest) (text ++ [10]) rest
  | last {text : List UInt8} (h : 10 ∉ text) (hne : text ≠ []) : FirstLine text text []

/-- What stands before the first newline is the line, but for one carriage return. -/
theorem cutLine_append {text : List UInt8} (h : 10 ∉ text) (rest : List UInt8) :
    cutLine (text ++ 10 :: rest) = (dropReturn text, rest) := by
  have hall : ∀ b ∈ text, decide (b ≠ 10) = true := by
    intro b hb
    rw [decide_eq_true_iff]
    exact fun heq => h (heq ▸ hb)
  rw [cutLine, List.takeWhile_append_of_pos hall, List.dropWhile_append_of_pos hall]
  simp

/-- Without a newline all that is left is the line. -/
theorem cutLine_of_not_mem {text : List UInt8} (h : 10 ∉ text) : cutLine text = (text, []) := by
  have hall : ∀ b ∈ text, decide (b ≠ 10) = true := by
    intro b hb
    rw [decide_eq_true_iff]
    exact fun heq => h (heq ▸ hb)
  rw [cutLine, List.takeWhile_eq_self_iff.mpr hall, List.dropWhile_eq_nil_iff.mpr hall]

namespace FirstLine

variable {input line rest : List UInt8}

/-- An input that is not used up has a first line. -/
theorem exists_of_ne_nil (h : input ≠ []) : ∃ line rest, FirstLine input line rest := by
  by_cases hmem : 10 ∈ input
  · obtain ⟨text, rest, rfl, hnot⟩ := List.eq_append_cons_of_mem hmem
    exact ⟨_, rest, .ended hnot⟩
  · exact ⟨input, [], .last hmem h⟩

/-- The line and what comes behind it are the input. -/
theorem append_eq (h : FirstLine input line rest) : line ++ rest = input := by
  cases h with
  | ended => simp
  | last => simp

/-- A line takes at least one byte. -/
theorem line_ne_nil (h : FirstLine input line rest) : line ≠ [] := by
  cases h with
  | ended => simp
  | last _ hne => exact hne

/-- The line stays the first one with other input behind it, unless it ended with the input. -/
theorem before (h : FirstLine input line rest) {more : List UInt8} (hmore : rest = [] → more = []) :
    FirstLine (line ++ more) line more := by
  cases h with
  | ended hnot =>
    rw [List.append_assoc, List.singleton_append]
    exact .ended hnot
  | last hnot hne =>
    rw [hmore rfl, List.append_nil]
    exact .last hnot hne

/-- What is read from the input is what is read from the line alone. -/
theorem cutLine_eq (h : FirstLine input line rest) : cutLine input = ((cutLine line).1, rest) := by
  cases h with
  | ended hnot => rw [cutLine_append hnot, cutLine_append hnot]
  | last hnot => rw [cutLine_of_not_mem hnot]

end FirstLine

/-- What reading a line gives. -/
def lineText (line : List UInt8) : Except IoError (Option String) :=
  match Text.ofBytes? (cutLine line).1 with
  | none => .error .invalidUtf8
  | some text => .ok (some text)

namespace Terminal

variable {t : Terminal} {line rest : List UInt8}

/-- A terminal over an unlimited sink reads the first line and leaves the rest. -/
theorem readLine_of_firstLine (hout : t.output.Unlimited) (h : FirstLine t.input line rest) :
    t.readLine = (lineText line, { t with input := rest }) := by
  have hne : t.input ≠ [] := by
    rw [← h.append_eq]
    exact List.append_ne_nil_of_left_ne_nil h.line_ne_nil rest
  obtain ⟨b, bs, hinput⟩ := List.exists_cons_of_ne_nil hne
  rw [readLine_of_unlimited hout, lineText, hinput]
  dsimp only
  rw [← hinput, h.cutLine_eq]
  dsimp only
  cases Text.ofBytes? (cutLine line).1 <;> rfl

/-- A terminal over an unlimited sink whose input is used up reads nothing. -/
theorem readLine_of_nil (hout : t.output.Unlimited) (h : t.input = []) : t.readLine = (.ok none, t) := by
  rw [readLine_of_unlimited hout, h]

end Terminal

namespace Text

/-- The bytes of a text are those of its characters. -/
theorem toBytes_ofList (cs : List Char) :
    toBytes (String.ofList cs) = cs.flatMap String.utf8EncodeChar := by
  rw [toBytes, String.toUTF8_eq_toByteArray]
  simp [List.utf8Encode]

/-- An ASCII byte occurs in the bytes of its own character only, and alone. -/
theorem of_mem_utf8EncodeChar {c : Char} {b : UInt8} (hb : b ∈ String.utf8EncodeChar c)
    (hascii : b.toNat < 128) : String.utf8EncodeChar c = [b] ∧ c.toNat = b.toNat := by
  have hnat : c.toNat = c.val.toNat := rfl
  -- All bytes of a character with more than one are past ASCII.
  have hpast {n : Nat} (hn : 128 ≤ n) (hn' : n < 256) : b ≠ UInt8.ofNat n := by
    rintro rfl
    rw [UInt8.toNat_ofNat_of_lt' hn'] at hascii
    omega
  unfold String.utf8EncodeChar at hb ⊢
  dsimp only at hb ⊢
  split
  · next hone =>
    rw [if_pos hone, List.mem_singleton] at hb
    subst hb
    rw [UInt8.toNat_ofNat_of_lt' (show c.val.toNat < 256 by omega)]
    exact ⟨rfl, hnat⟩
  · next hone =>
    rw [if_neg hone] at hb
    split at hb
    · simp only [List.mem_cons, List.not_mem_nil, or_false] at hb
      rcases hb with hb | hb <;> exact absurd hb (hpast (by omega) (by omega))
    · split at hb
      · simp only [List.mem_cons, List.not_mem_nil, or_false] at hb
        rcases hb with hb | hb | hb <;> exact absurd hb (hpast (by omega) (by omega))
      · simp only [List.mem_cons, List.not_mem_nil, or_false] at hb
        rcases hb with hb | hb | hb | hb <;> exact absurd hb (hpast (by omega) (by omega))

/-- A text without a newline has no byte of one. -/
theorem not_mem_of_newline_not_mem {cs : List Char} (h : '\n' ∉ cs) :
    10 ∉ cs.flatMap String.utf8EncodeChar := by
  intro hmem
  obtain ⟨c, hc, hbyte⟩ := List.mem_flatMap.mp hmem
  obtain ⟨-, hcode⟩ := of_mem_utf8EncodeChar hbyte (by decide)
  obtain rfl : c = '\n' := Char.toNat_inj.mp hcode
  exact h hc

/-- A text without one carriage return at its end is a text. -/
theorem exists_dropReturn (cs : List Char) :
    ∃ kept : List Char, dropReturn (cs.flatMap String.utf8EncodeChar) =
      kept.flatMap String.utf8EncodeChar := by
  rw [dropReturn]
  split
  · next hlast =>
    cases cs using List.reverseRecOn with
    | nil => contradiction
    | append_singleton cs c =>
      have hne : String.utf8EncodeChar c ≠ [] := by
        rw [← List.length_pos_iff, String.length_utf8EncodeChar]
        exact c.utf8Size_pos
      rw [List.flatMap_append, List.flatMap_singleton] at hlast ⊢
      rw [List.getLast?_append_of_ne_nil _ hne] at hlast
      obtain ⟨hcode, -⟩ := of_mem_utf8EncodeChar (List.mem_of_getLast? hlast) (by decide)
      exact ⟨cs, by rw [hcode, List.dropLast_concat]⟩
  · exact ⟨cs, rfl⟩

/-- The first line of a text and what comes behind it are texts. -/
theorem exists_cutLine (text : String) :
    ∃ line rest : String, cutLine (toBytes text) = (toBytes line, toBytes rest) := by
  have hbytes (cs : List Char) : cs.flatMap String.utf8EncodeChar = toBytes (String.ofList cs) :=
    (toBytes_ofList cs).symm
  rw [← String.ofList_toList (s := text), toBytes_ofList]
  by_cases hmem : '\n' ∈ text.toList
  · obtain ⟨before, after, hsplit, hnot⟩ := List.eq_append_cons_of_mem hmem
    obtain ⟨kept, hkept⟩ := exists_dropReturn before
    refine ⟨String.ofList kept, String.ofList after, ?_⟩
    have hnewline : String.utf8EncodeChar '\n' = [10] := by decide
    rw [hsplit, List.flatMap_append, List.flatMap_cons, hnewline, List.singleton_append,
      cutLine_append (not_mem_of_newline_not_mem hnot), hkept, hbytes, hbytes]
  · refine ⟨text, "", ?_⟩
    rw [cutLine_of_not_mem (not_mem_of_newline_not_mem hmem), hbytes, String.ofList_toList]
    rfl

end Text

namespace FirstLine

variable {input line rest : List UInt8} {text : String}

/-- The first line of a text is read as a text. -/
theorem exists_lineText (h : FirstLine input line rest) (htext : input = Text.toBytes text) :
    ∃ first, lineText line = .ok (some first) := by
  obtain ⟨first, after, hcut⟩ := Text.exists_cutLine text
  rw [← htext, h.cutLine_eq] at hcut
  refine ⟨first, ?_⟩
  rw [lineText, congrArg Prod.fst hcut, Text.ofBytes?_eq_some_iff.mpr rfl]

/-- What comes behind the first line of a text is a text. -/
theorem exists_rest (h : FirstLine input line rest) (htext : input = Text.toBytes text) :
    ∃ after, rest = Text.toBytes after := by
  obtain ⟨first, after, hcut⟩ := Text.exists_cutLine text
  rw [← htext, h.cutLine_eq] at hcut
  exact ⟨after, congrArg Prod.snd hcut⟩

end FirstLine

/-- Everything that is asked of it leaves a terminal with a text over an unlimited sink. -/
theorem Terminal.preserves_text :
    Console.Preserves fun t : Terminal =>
      t.output.Unlimited ∧ ∃ text, t.input = Text.toBytes text where
  readLine {t} h := by
    refine ⟨preserves_unlimited.readLine h.1, ?_⟩
    change ∃ text, t.readLine.2.input = Text.toBytes text
    by_cases hinput : t.input = []
    · rw [readLine_of_nil h.1 hinput]
      exact h.2
    · obtain ⟨line, rest, hline⟩ := FirstLine.exists_of_ne_nil hinput
      obtain ⟨text, htext⟩ := h.2
      rw [readLine_of_firstLine h.1 hline]
      exact hline.exists_rest htext
  writeChar char t h := by
    refine ⟨preserves_unlimited.writeChar char h.1, ?_⟩
    change ∃ text, (t.writeChar char).2.input = Text.toBytes text
    rw [writeChar_of_unlimited h.1]
    exact h.2
  flush {t} h := by
    refine ⟨preserves_unlimited.flush h.1, ?_⟩
    change ∃ text, t.flush.2.input = Text.toBytes text
    rw [flush_of_unlimited h.1]
    exact h.2

end TapeMachine
