import TriangleCompiler.Machine.Listing
import TriangleCompiler.Program.Literal

/-! The two forms of written code say the same. A line of the listing and five bytes of the image are read
    back by two readers that have nothing to do with each other; both find the numbers of the instruction,
    and these leave no choice of the instruction. -/

namespace TriangleCompiler.Machine

open Literal (natural? integer?)

/-- The numbers that an instruction is made of. -/
structure Numbers where
  op : Nat
  register : Nat
  length : Nat
  operand : Int
deriving DecidableEq, Repr

/-- The numbers of an instruction. -/
def Instruction.numbers (i : Instruction) : Numbers :=
  ⟨i.op.number, i.register.number, i.length.toNat, i.operand.toInt⟩

/-! ### Readers -/

/-- The numbers in five bytes. The last two bytes are a number in two's complement, its low byte first. -/
def Numbers.ofBytes? : List UInt8 → Option Numbers
  | [op, register, length, low, high] =>
    let word : Int := low.toNat + 256 * high.toNat
    some ⟨op.toNat, register.toNat, length.toNat, if word < 32768 then word else word - 65536⟩
  | _ => none

/-- Four decimal numbers with single blanks between them. -/
def Numbers.ofText? (text : List Char) : Option Numbers :=
  match text.splitOn ' ' with
  | [op, register, length, operand] => do
    pure ⟨← natural? op, ← natural? register, ← natural? length, ← integer? operand⟩
  | _ => none

/-- What stands between the brackets at the end of a line. -/
def inFinalBrackets? (line : List Char) : Option (List Char) :=
  if line.getLast? = some ')' ∧ '(' ∈ line then
    some (line.dropLast.reverse.takeWhile (· ≠ '(')).reverse
  else none

/-- The column before the colon of a line. -/
def addressColumn (line : List Char) : List Char :=
  line.takeWhile (· ≠ ':')

/-- The number at the right end of a column. -/
def rightAligned? (column : List Char) : Option Nat :=
  natural? (column.dropWhile (· = ' '))

/-- The address and the numbers in a line of a listing. -/
def readLine? (line : List Char) : Option (Nat × Numbers) := do
  pure (← rightAligned? (addressColumn line), ← (inFinalBrackets? line).bind Numbers.ofText?)

/-! ### Decimal numbers -/

theorem natural?_toDigits (n : Nat) : natural? (Nat.toDigits 10 n) = some n := by
  have hdigits : (Nat.toDigits 10 n).all Char.isDigit = true :=
    List.all_eq_true.mpr fun c hc => Nat.isDigit_of_mem_toDigits (by decide) (by decide) hc
  have hdecimal : (!(Nat.toDigits 10 n).isEmpty && (Nat.toDigits 10 n).all Char.isDigit) = true := by
    simp [hdigits, Nat.toDigits_ne_nil]
  rw [natural?, if_pos hdecimal]
  exact congrArg some Nat.ofDigitChars_ten_toDigits

theorem toList_toString (n : Int) : (toString n).toList =
    if 0 ≤ n then Nat.toDigits 10 n.toNat else '-' :: Nat.toDigits 10 (-n).toNat := by
  rw [Int.toString_eq_repr, Int.repr_eq_if]
  split <;> simp

theorem integer?_toString (n : Int) : integer? (toString n).toList = some n := by
  rw [toList_toString]
  split
  · rename_i hpos
    obtain ⟨c, cs, hcons⟩ := List.exists_cons_of_ne_nil (@Nat.toDigits_ne_nil n.toNat 10)
    have hdigit : c.isDigit = true :=
      Nat.isDigit_of_mem_toDigits (by decide) (by decide) (hcons ▸ List.mem_cons_self)
    have hvalue := natural?_toDigits n.toNat
    rw [hcons] at hvalue ⊢
    -- a digit is no sign, so the last of the three rules is the one that reads the number
    unfold integer?
    split
    · rename_i hminus
      rw [(List.cons.inj hminus).1] at hdigit
      cases hdigit
    · rename_i hplus
      rw [(List.cons.inj hplus).1] at hdigit
      cases hdigit
    · rw [hvalue]
      exact congrArg some (Int.toNat_of_nonneg hpos)
  · rw [integer?, natural?_toDigits]
    show some (-((-n).toNat : Int)) = some n
    rw [Int.toNat_of_nonneg (by omega), Int.neg_neg]

/-- The characters of decimal numbers. -/
def InNumeral (c : Char) : Prop := c.isDigit = true ∨ c = '-'

instance : DecidablePred InNumeral := fun c => inferInstanceAs (Decidable (c.isDigit = true ∨ c = '-'))

theorem inNumeral_of_mem_toDigits {n : Nat} {c : Char} (h : c ∈ Nat.toDigits 10 n) : InNumeral c :=
  Or.inl (Nat.isDigit_of_mem_toDigits (by decide) (by decide) h)

theorem inNumeral_of_mem_toString {n : Int} {c : Char} (h : c ∈ (toString n).toList) : InNumeral c := by
  rw [toList_toString] at h
  split at h
  · exact inNumeral_of_mem_toDigits h
  · rcases List.mem_cons.mp h with rfl | h
    · exact Or.inr rfl
    · exact inNumeral_of_mem_toDigits h

/-! ### Lines -/

/-- A line without its line feed. -/
def Instruction.row (address : Nat) (i : Instruction) : List Char :=
  List.leftpad 4 ' ' (Nat.toDigits 10 address) ++ ':' :: ' ' ::
    (List.rightpad 20 ' ' i.mnemonic.toList ++ ' ' :: '(' :: (i.fields.toList ++ [')']))

theorem toString_self (s : String) : toString s = s := rfl

theorem Instruction.toList_line (address : Nat) (i : Instruction) :
    (i.line address).toList = i.row address ++ ['\n'] := by
  simp [Instruction.line, Instruction.row, toString_self]

theorem Instruction.toList_fields (i : Instruction) : i.fields.toList = [' '].intercalate
    [Nat.toDigits 10 i.op.number, Nat.toDigits 10 i.register.number, Nat.toDigits 10 i.length.toNat,
      (toString i.operand.toInt).toList] := by
  simp [Instruction.fields, Word.text, List.intercalate, toString_self]

/-- No character of the four numbers is taken for something else in a line. -/
theorem Instruction.mem_fields {i : Instruction} {c : Char} (h : c ∈ i.fields.toList) :
    c = ' ' ∨ InNumeral c := by
  rw [i.toList_fields] at h
  simp only [List.intercalate, List.intersperse, List.flatten_cons, List.mem_append, List.mem_singleton,
    List.flatten_nil, List.not_mem_nil, or_false] at h
  rcases h with h | rfl | h | rfl | h | rfl | h
  · exact Or.inr (inNumeral_of_mem_toDigits h)
  · exact Or.inl rfl
  · exact Or.inr (inNumeral_of_mem_toDigits h)
  · exact Or.inl rfl
  · exact Or.inr (inNumeral_of_mem_toDigits h)
  · exact Or.inl rfl
  · exact Or.inr (inNumeral_of_mem_toString h)

/-- The text stays on its line. -/
def OnOneLine (s : String) : Prop := '\n' ∉ s.toList

instance : DecidablePred OnOneLine := fun s => inferInstanceAs (Decidable ('\n' ∉ s.toList))

theorem onOneLine_append {s t : String} : OnOneLine (s ++ t) ↔ OnOneLine s ∧ OnOneLine t := by
  simp [OnOneLine]

theorem onOneLine_nat (n : Nat) : OnOneLine (toString n) := fun h => by
  rw [Nat.toString_eq_repr, Nat.toList_repr] at h
  exact absurd (inNumeral_of_mem_toDigits h) (by decide)

theorem onOneLine_text (w : Word) : OnOneLine w.text :=
  fun h => absurd (inNumeral_of_mem_toString h) (by decide)

theorem onOneLine_place (i : Instruction) : OnOneLine i.place := by
  have hregister : OnOneLine i.register.name := by
    cases i.register <;> decide
  exact onOneLine_append.mpr ⟨onOneLine_append.mpr ⟨hregister, by decide⟩, onOneLine_text _⟩

theorem onOneLine_callee (i : Instruction) : OnOneLine i.callee := by
  unfold Instruction.callee
  split
  · rename_i routine _ _
    cases routine <;> decide
  · exact onOneLine_place i

theorem onOneLine_mnemonic (i : Instruction) : OnOneLine i.mnemonic := by
  have hawaited : OnOneLine i.awaited := by
    unfold Instruction.awaited
    split <;> decide
  have hplace := onOneLine_place i
  have hcallee := onOneLine_callee i
  have hlength := onOneLine_nat i.length.toNat
  have hoperand := onOneLine_text i.operand
  unfold Instruction.mnemonic
  split
  case h_8 | h_13 | h_15 => decide
  all_goals
    simp only [toString_self, onOneLine_append, hplace, hcallee, hlength, hoperand, hawaited]
    decide

theorem Instruction.newline_not_mem_row (i : Instruction) (address : Nat) : '\n' ∉ i.row address := by
  have haddress : '\n' ∉ Nat.toDigits 10 address :=
    fun h => absurd (inNumeral_of_mem_toDigits h) (by decide)
  have hfields : '\n' ∉ i.fields.toList := fun h => absurd (Instruction.mem_fields h) (by decide)
  have hmnemonic : '\n' ∉ i.mnemonic.toList := onOneLine_mnemonic i
  simp [Instruction.row, List.leftpad, List.rightpad, haddress, hfields, hmnemonic]

/-! ### What is read -/

theorem addressColumn_row (address : Nat) (i : Instruction) :
    addressColumn (i.row address) = List.leftpad 4 ' ' (Nat.toDigits 10 address) := by
  have hcolumn : ∀ c ∈ List.leftpad 4 ' ' (Nat.toDigits 10 address), c ≠ ':' := by
    intro c hc heq
    subst heq
    rcases List.mem_append.mp hc with hblank | hdigit
    · cases List.eq_of_mem_replicate hblank
    · exact absurd (inNumeral_of_mem_toDigits hdigit) (by decide)
  rw [addressColumn, Instruction.row, List.takeWhile_append_of_pos (by simpa using hcolumn)]
  simp

theorem rightAligned?_leftpad (n width : Nat) :
    rightAligned? (List.leftpad width ' ' (Nat.toDigits 10 n)) = some n := by
  obtain ⟨c, cs, hcons⟩ := List.exists_cons_of_ne_nil (@Nat.toDigits_ne_nil n 10)
  have hne : c ≠ ' ' := by
    rintro rfl
    exact absurd (inNumeral_of_mem_toDigits (hcons ▸ List.mem_cons_self)) (by decide)
  have hdrop : (List.leftpad width ' ' (Nat.toDigits 10 n)).dropWhile (· = ' ') = Nat.toDigits 10 n := by
    rw [List.leftpad, List.dropWhile_append_of_pos (by simp), hcons, List.dropWhile_cons_of_neg (by simpa using hne)]
  rw [rightAligned?, hdrop, natural?_toDigits]

theorem inFinalBrackets?_row (address : Nat) (i : Instruction) :
    inFinalBrackets? (i.row address) = some i.fields.toList := by
  have hsplit : i.row address = (List.leftpad 4 ' ' (Nat.toDigits 10 address) ++ ':' :: ' ' ::
      (List.rightpad 20 ' ' i.mnemonic.toList ++ [' '])) ++ '(' :: i.fields.toList ++ [')'] := by
    simp [Instruction.row]
  have hfields : ∀ c ∈ i.fields.toList.reverse, c ≠ '(' := by
    rintro c hc rfl
    exact absurd (Instruction.mem_fields (List.mem_reverse.mp hc)) (by decide)
  rw [inFinalBrackets?, hsplit, if_pos ⟨List.getLast?_concat, by simp⟩, List.dropLast_concat, List.reverse_append, List.reverse_cons,
    List.append_assoc, List.takeWhile_append_of_pos (by simpa using hfields)]
  simp

theorem ofText?_fields (i : Instruction) : Numbers.ofText? i.fields.toList = some i.numbers := by
  have hdigits : ∀ n : Nat, ' ' ∉ Nat.toDigits 10 n :=
    fun n h => absurd (inNumeral_of_mem_toDigits h) (by decide)
  have hoperand : ' ' ∉ (toString i.operand.toInt).toList :=
    fun h => absurd (inNumeral_of_mem_toString h) (by decide)
  have hsplit : i.fields.toList.splitOn ' ' = [Nat.toDigits 10 i.op.number, Nat.toDigits 10 i.register.number,
      Nat.toDigits 10 i.length.toNat, (toString i.operand.toInt).toList] := by
    rw [i.toList_fields]
    refine List.splitOn_intercalate ' ' ?_ (List.cons_ne_nil _ _)
    simpa only [List.forall_mem_cons, List.not_mem_nil, false_implies, implies_true, and_true, hdigits,
      not_false_eq_true, true_and] using hoperand
  simp only [Numbers.ofText?, hsplit, natural?_toDigits, integer?_toString]
  rfl

theorem readLine?_row (address : Nat) (i : Instruction) :
    readLine? (i.row address) = some (address, i.numbers) := by
  rw [readLine?, addressColumn_row, rightAligned?_leftpad, inFinalBrackets?_row]
  simp only [Option.bind_some, ofText?_fields]
  rfl

/-! ### Bytes -/

theorem toNat_lowByte (w : Word) : w.lowByte.toNat = w.toUInt16.toNat % 256 := by
  simp [Word.lowByte]

theorem toNat_highByte (w : Word) : w.highByte.toNat = w.toUInt16.toNat / 256 := by
  have hlt := w.toUInt16.toNat_lt
  have hshift : (w.toUInt16 >>> 8).toNat = w.toUInt16.toNat / 256 := by
    simp [Nat.shiftRight_eq_div_pow]
  rw [Word.highByte, UInt16.toNat_toUInt8, hshift]
  omega

theorem toInt_eq_bytes (w : Word) : w.toInt =
    if (w.lowByte.toNat + 256 * w.highByte.toNat : Int) < 32768 then
      (w.lowByte.toNat + 256 * w.highByte.toNat : Int)
    else w.lowByte.toNat + 256 * w.highByte.toNat - 65536 := by
  have hword : w.toInt = if 2 * w.toUInt16.toNat < 65536 then (w.toUInt16.toNat : Int)
      else w.toUInt16.toNat - 65536 := BitVec.toInt_eq_toNat_cond _
  rw [toNat_lowByte, toNat_highByte, hword]
  split <;> split <;> omega

theorem ofBytes?_bytes (i : Instruction) : Numbers.ofBytes? i.bytes = some i.numbers := by
  have hop : (UInt8.ofNat i.op.number).toNat = i.op.number := by cases i.op <;> rfl
  have hregister : (UInt8.ofNat i.register.number).toNat = i.register.number := by
    cases i.register <;> rfl
  simp only [Instruction.bytes, Numbers.ofBytes?, Instruction.numbers, hop, hregister, toInt_eq_bytes]

theorem length_flatMap_bytes (is : List Instruction) : (is.flatMap Instruction.bytes).length = 5 * is.length := by
  induction is with
  | nil => rfl
  | cons i is ih =>
    rw [List.flatMap_cons, List.length_append, ih, List.length_cons, Instruction.bytes]
    simp only [List.length_cons, List.length_nil]
    omega

/-- The bytes of an instruction stand where five bytes for each instruction before it put them. -/
theorem take_drop_flatMap_bytes {is : List Instruction} {address : Nat} {i : Instruction}
    (h : is[address]? = some i) : ((is.flatMap Instruction.bytes).drop (5 * address)).take 5 = i.bytes := by
  induction is generalizing address with
  | nil => cases h
  | cons j is ih =>
    cases address with
    | zero =>
      cases h
      rfl
    | succ address =>
      rw [List.flatMap_cons, show 5 * (address + 1) = j.bytes.length + 5 * address from Nat.add_comm _ _,
        List.drop_length_add_append]
      exact ih h

/-! ### The lines of a listing -/

/-- A listing is cut at its line feeds into the lines of its instructions; nothing follows the last one. -/
theorem splitOn_lines (is : List (Instruction × Nat)) :
    (String.join (is.map fun (i, address) => i.line address)).toList.splitOn '\n' =
      (is.map fun (i, address) => i.row address) ++ [[]] := by
  induction is with
  | nil => rfl
  | cons entry is ih =>
    obtain ⟨i, address⟩ := entry
    have hcut : (String.join ((i.line address) :: is.map fun (i, address) => i.line address)).toList =
        i.row address ++ '\n' :: (String.join (is.map fun (i, address) => i.line address)).toList := by
      simp only [String.toList_join, List.flatMap_cons, Instruction.toList_line, List.append_assoc,
        List.singleton_append]
    rw [List.map_cons, hcut, List.splitOn_append_cons_self_of_not_mem (i.newline_not_mem_row address), ih,
      List.map_cons, List.cons_append]

/-! ### The code that is written -/

theorem OpCode.all_number (op : OpCode) : OpCode.all[op.number]? = some op := by
  cases op <;> rfl

theorem Register.all_number (register : Register) : Register.all[register.number]? = some register := by
  cases register <;> rfl

theorem Instruction.numbers_injective {i j : Instruction} (h : i.numbers = j.numbers) : i = j := by
  obtain ⟨hop, hregister, hlength, hoperand⟩ := Numbers.mk.inj h
  have hop : i.op = j.op := Option.some.inj (by rw [← OpCode.all_number, hop, OpCode.all_number])
  have hregister : i.register = j.register :=
    Option.some.inj (by rw [← Register.all_number, hregister, Register.all_number])
  cases i
  cases j
  cases hop
  cases hregister
  cases UInt8.toNat_inj.mp hlength
  cases Int16.toInt_inj.mp hoperand
  rfl

/-- Instructions are known once their number and the numbers of each are. -/
theorem eq_of_numbers {is js : Array Instruction} (hsize : is.size = js.size)
    (h : ∀ (address : Nat) (i j : Instruction), is[address]? = some i → js[address]? = some j →
      i.numbers = j.numbers) : is = js :=
  Array.ext hsize fun address hi hj =>
    Instruction.numbers_injective
      (h address _ _ (Array.getElem?_eq_getElem hi) (Array.getElem?_eq_getElem hj))

namespace Code

/-- The lines of a listing without their line feeds. -/
def rows (c : Code) : List (List Char) :=
  c.instructions.toList.zipIdx.map fun (i, address) => i.row address

theorem splitOn_text (c : Code) : c.text.toList.splitOn '\n' = c.rows ++ [[]] :=
  splitOn_lines _

@[simp] theorem length_rows (c : Code) : c.rows.length = c.size := by
  simp [rows, size]

theorem getElem?_rows {c : Code} {address : Nat} {i : Instruction}
    (h : c.instructions[address]? = some i) : c.rows[address]? = some (i.row address) := by
  rw [← Array.getElem?_toList] at h
  simp [rows, h]

theorem length_binary (c : Code) : c.binary.length = 5 * c.size :=
  length_flatMap_bytes _

/-- The five bytes of the instruction at an address. -/
theorem take_drop_binary {c : Code} {address : Nat} {i : Instruction}
    (h : c.instructions[address]? = some i) : (c.binary.drop (5 * address)).take 5 = i.bytes := by
  rw [← Array.getElem?_toList] at h
  exact take_drop_flatMap_bytes h

theorem instructions_eq_of_text {c c' : Code} (h : c'.text = c.text) : c'.instructions = c.instructions := by
  have hrows : c'.rows = c.rows := by
    have hsplit := congrArg (fun text => text.toList.splitOn '\n') h
    rw [splitOn_text, splitOn_text] at hsplit
    exact (List.append_left_inj _).mp hsplit
  have hsize : c'.size = c.size := by rw [← length_rows, hrows, length_rows]
  refine eq_of_numbers hsize fun address i j hi hj => ?_
  have hrow : i.row address = j.row address :=
    Option.some.inj ((getElem?_rows hi).symm.trans (hrows ▸ getElem?_rows hj))
  have hread := (readLine?_row address i).symm.trans (hrow ▸ readLine?_row address j)
  exact congrArg Prod.snd (Option.some.inj hread)

theorem instructions_eq_of_binary {c c' : Code} (h : c'.binary = c.binary) :
    c'.instructions = c.instructions := by
  have hsize : c'.size = c.size :=
    Nat.mul_left_cancel (by decide : 0 < 5) (by rw [← length_binary, h, length_binary])
  refine eq_of_numbers hsize fun address i j hi hj => ?_
  have hbytes : i.bytes = j.bytes := (take_drop_binary hi).symm.trans (h ▸ take_drop_binary hj)
  exact Option.some.inj ((ofBytes?_bytes i).symm.trans (hbytes ▸ ofBytes?_bytes j))

/-- The two forms of code agree, whatever the code is and however it was built: the image has five bytes
    and the listing one line for each instruction; a line holds the address, right-aligned in four
    characters, and the numbers of its instruction, and so do the five bytes. Either form leaves no choice
    of the instructions. -/
theorem formats_agree (c : Code) :
    c.binary.length = 5 * c.size ∧
    (∃ lines : List (List Char), c.text.toList.splitOn '\n' = lines ++ [[]] ∧ lines.length = c.size ∧
      ∀ (address : Nat) (i : Instruction), c.instructions[address]? = some i →
        (∃ line, lines[address]? = some line ∧ readLine? line = some (address, i.numbers) ∧
          (addressColumn line).length = max 4 (toString address).length) ∧
        Numbers.ofBytes? ((c.binary.drop (5 * address)).take 5) = some i.numbers) ∧
    (∀ c' : Code, c'.text = c.text → c'.instructions = c.instructions) ∧
    ∀ c' : Code, c'.binary = c.binary → c'.instructions = c.instructions := by
  refine ⟨c.length_binary, ⟨c.rows, c.splitOn_text, c.length_rows, fun address i h => ⟨?_, ?_⟩⟩,
    fun _ => instructions_eq_of_text, fun _ => instructions_eq_of_binary⟩
  · refine ⟨i.row address, getElem?_rows h, readLine?_row address i, ?_⟩
    have hlength : (toString address).length = (Nat.toDigits 10 address).length := by
      rw [← String.length_toList, Nat.toString_eq_repr, Nat.toList_repr]
    rw [addressColumn_row, hlength, List.length_leftpad]
  · rw [take_drop_binary h, ofBytes?_bytes]

end Code

end TriangleCompiler.Machine
