import TriangleCompiler.Buffer

/-! What is left in a buffer that is too small. Output that is written in pieces comes to the same as its
    whole text written at once, wherever it is cut: up to the first piece for which there is no room
    nothing is lost, and behind it nothing is written. So a buffer holds the first bytes of the output,
    as many as there is room for. -/

namespace TriangleCompiler

/-! ### Pieces of output -/

namespace Buffer
variable {b : Buffer} {xs : List UInt8}

theorem size_write (b : Buffer) (xs : List UInt8) :
    (b.write xs).2.bytes.size = b.bytes.size + (xs.take (b.capacity - b.bytes.size)).length := by
  rw [write, ← Array.length_toList, Array.toList_appendList, List.length_append, Array.length_toList]

/-- Behind bytes that found room, others are written as if all came at once. -/
theorem write_append_of_room (h : (b.write xs).1 = none) (ys : List UInt8) :
    b.write (xs ++ ys) = (b.write xs).2.write ys := by
  have hroom : xs.length ≤ b.capacity - b.bytes.size := by
    by_cases hroom : xs.length ≤ b.capacity - b.bytes.size
    · exact hroom
    · simp [write, hroom] at h
  have hsize : (b.write xs).2.bytes.size = b.bytes.size + xs.length := by
    rw [size_write, List.take_of_length_le hroom]
  have hrest : b.capacity - b.bytes.size - xs.length = b.capacity - (b.bytes.size + xs.length) := by omega
  have hfits : (xs ++ ys).length ≤ b.capacity - b.bytes.size ↔
      ys.length ≤ b.capacity - (b.bytes.size + xs.length) := by
    rw [List.length_append]
    omega
  rw [write, write, hsize]
  simp only [hfits, List.take_append, hrest]
  simp [write, List.take_of_length_le hroom, ← Array.toList_inj]

/-- Behind bytes that found no room, others make no difference. -/
theorem write_append_of_full {e : WriteError} (h : (b.write xs).1 = some e) (ys : List UInt8) :
    b.write (xs ++ ys) = b.write xs := by
  have hfull : ¬xs.length ≤ b.capacity - b.bytes.size := by
    intro hroom
    simp [write, hroom] at h
  have hlong : ¬(xs ++ ys).length ≤ b.capacity - b.bytes.size := by
    rw [List.length_append]
    omega
  rw [write, write, if_neg hfull, if_neg hlong, List.take_append_of_le_length (by omega)]

end Buffer

namespace Printer
variable {x y : Printer} {s t : String}

theorem text_empty : text "" = pure () := by
  funext b
  simp [text, Buffer.write]
  rfl

/-- Two texts one after the other are one text. -/
theorem bind_text (s t : String) : (text s >>= fun _ => text t) = text (s ++ t) := by
  funext b
  have hbytes : (s ++ t).toUTF8.data.toList = s.toUTF8.data.toList ++ t.toUTF8.data.toList := by simp
  show EStateM.bind (text s) (fun _ => text t) b = text (s ++ t) b
  unfold EStateM.bind text
  rw [hbytes]
  cases hfirst : b.write s.toUTF8.data.toList with
  | mk error b' =>
    cases error with
    | none => rw [Buffer.write_append_of_room (by rw [hfirst]), hfirst]
    | some e => rw [Buffer.write_append_of_full (by rw [hfirst]), hfirst]

theorem bind_eq_text (hx : x = text s) (hy : y = text t) : (x >>= fun _ => y) = text (s ++ t) := by
  rw [hx, hy, bind_text]

theorem texts_eq (pieces : List String) : texts pieces = text (String.join pieces) := by
  induction pieces with
  | nil => exact text_empty.symm
  | cons piece pieces ih =>
    rw [String.join_cons, ← bind_text, ← ih]
    rfl

theorem texts_pair (s t : String) : texts [s, t] = text (s ++ t) := by
  rw [texts_eq, String.join_cons, String.join_cons, String.join_nil, String.append_empty]

theorem outcome_text (s : String) (b : Buffer) : (text s).outcome b = b.write s.toUTF8.data.toList := by
  unfold outcome text
  cases b.write s.toUTF8.data.toList with
  | mk error b' => cases error <;> rfl

end Printer

/-! ### Printed trees -/

open Printer (text texts_eq texts_pair bind_eq_text bind_text)

theorem Position.print_eq (p : Position) : p.print = Printer.text p.text := by
  unfold Position.print Position.text
  split
  · rfl
  · rw [texts_eq]
    simp only [String.join_cons, String.join_nil, String.append_empty, String.append_assoc]
    rfl

namespace Outline

theorem printHead_eq (what : String) (position : Position) :
    printHead what position = text (head what position) := by
  rw [printHead, texts_eq, position.print_eq, bind_text, bind_text]
  simp only [head, String.join_cons, String.join_nil, String.append_empty, String.append_assoc]
  rfl

theorem printNamedHead_eq (what name : String) (position : Position) :
    printNamedHead what name position = text (namedHead what name position) := by
  rw [printNamedHead, texts_eq, position.print_eq, bind_text, bind_text]
  simp only [namedHead, String.join_cons, String.join_nil, String.append_empty, String.append_assoc]
  rfl

theorem join_replicate_space (n : Nat) : String.join (List.replicate n " ") = spaces n := by
  rw [← String.toList_inj, toList_spaces]
  induction n with
  | zero => rfl
  | succ n ih =>
    rw [List.replicate_succ, String.join_cons, String.toList_append, ih, List.replicate_succ]
    rfl

/-- A line whose content is written in pieces is the line with that content. -/
theorem printLine_eq {content : Printer} {s : String} (h : content = text s) (depth : Nat) :
    printLine depth content = text (Line.render ⟨depth, s⟩) := by
  rw [printLine, texts_eq, join_replicate_space, h, bind_text, bind_text, Line.render, String.append_assoc]

namespace Decoration
variable (d : Decoration)

theorem printSite_eq (id : NodeId) : d.printSite id = text (d.siteText id) := by
  unfold printSite siteText
  cases d.sites[id]? with
  | some site =>
    simp only [texts_eq, Position.print_eq, bind_text, String.join_cons, String.join_nil, String.append_empty,
      String.append_assoc]
    rfl
  | none => exact texts_pair _ _

theorem printLink_eq (id : NodeId) : d.printLink id = text (d.link id) := by
  unfold printLink link
  cases d.links.bind (·.get? id) with
  | none => exact Printer.text_empty.symm
  | some target =>
    cases target with
    | builtin b => exact texts_pair _ _
    | const target => exact bind_eq_text (texts_pair _ _) (d.printSite_eq target)
    | var target => exact bind_eq_text (texts_pair _ _) (d.printSite_eq target)

theorem printType_eq (id : NodeId) : d.printType id = text (d.type id) := by
  unfold printType type
  cases d.types.bind (·.get? id) with
  | none => exact Printer.text_empty.symm
  | some type => exact texts_pair _ _

/-- What stands before the link and the type of a node comes first. -/
theorem print_linked_typed {head : Printer} {s : String} (h : head = text s) (name id : NodeId) :
    (head >>= fun _ => d.printLink name >>= fun _ => d.printType id) = text (s ++ d.link name ++ d.type id) := by
  rw [bind_eq_text h (bind_eq_text (d.printLink_eq name) (d.printType_eq id)), String.append_assoc]

end Decoration

/-- A printer writes the lines that are added to an outline. -/
def Agrees (print : Printer) (outline : Array Line → Array Line) : Prop :=
  ∃ lines : List Line, (∀ before, (outline before).toList = before.toList ++ lines) ∧
    print = text (String.join (lines.map Line.render))

namespace Agrees
variable {x y : Printer} {f g : Array Line → Array Line} {content : Printer} {s : String}

theorem nil : Agrees (pure ()) id :=
  ⟨[], fun before => (List.append_nil before.toList).symm, Printer.text_empty.symm⟩

theorem append (hx : Agrees x f) (hy : Agrees y g) : Agrees (x >>= fun _ => y) fun before => g (f before) := by
  obtain ⟨us, hf, hx⟩ := hx
  obtain ⟨vs, hg, hy⟩ := hy
  refine ⟨us ++ vs, fun before => ?_, ?_⟩
  · rw [hg, hf, List.append_assoc]
  · rw [bind_eq_text hx hy, List.map_append, String.join_append]

theorem line {depth : Nat} (h : content = text s) :
    Agrees (printLine depth content) fun before => before.push ⟨depth, s⟩ := by
  refine ⟨[⟨depth, s⟩], fun before => Array.toList_push, ?_⟩
  rw [printLine_eq h, List.map_singleton, String.join_cons, String.join_nil, String.append_empty]

end Agrees

end Outline

open Outline

mutual

theorem Expr.agrees (d : Decoration) (depth : Nat) : ∀ e : Expr,
    Agrees (e.print d depth) fun before => e.outlineAfter d depth before
  | .int _ _ | .char _ _ => .line (bind_eq_text (printNamedHead_eq _ _ _) (d.printType_eq _))
  | .name _ _ => .line (d.print_linked_typed (printNamedHead_eq _ _ _) _ _)
  | .call _ _ argument =>
    .append (.line (d.print_linked_typed (printNamedHead_eq _ _ _) _ _)) (argument.agrees d (depth + 1))
  | .unary _ _ operand =>
    .append (.line (d.print_linked_typed (printNamedHead_eq _ _ _) _ _)) (operand.agrees d (depth + 1))
  | .binary _ _ lhs rhs =>
    .append (.line (d.print_linked_typed (printNamedHead_eq _ _ _) _ _))
      ((lhs.agrees d (depth + 1)).append (rhs.agrees d (depth + 1)))
  | .error _ => .line (printHead_eq _ _)

theorem Argument.agrees (d : Decoration) (depth : Nat) : ∀ a : Argument,
    Agrees (a.print d depth) fun before => a.outlineAfter d depth before
  | .blank _ | .error _ => .line (printHead_eq _ _)
  | .value _ expr =>
    .append (.line (bind_eq_text (printHead_eq _ _) (d.printType_eq _))) (expr.agrees d (depth + 1))
  | .var _ _ => .line (d.print_linked_typed (printNamedHead_eq _ _ _) _ _)

end

theorem SingleDeclaration.agrees (d : Decoration) (depth : Nat) (declaration : SingleDeclaration) :
    Agrees (declaration.print d depth) fun before => declaration.outlineAfter d depth before := by
  cases declaration with
  | const _ _ value =>
    exact .append (.line (bind_eq_text (printNamedHead_eq _ _ _) (d.printType_eq _)))
      (value.agrees d (depth + 1))
  | var _ _ _ =>
    exact .append (.line (bind_eq_text (printNamedHead_eq _ _ _) (d.printType_eq _)))
      (.line (d.print_linked_typed (printNamedHead_eq _ _ _) _ _))
  | error => exact .line (printHead_eq _ _)

theorem agrees_declarations (d : Decoration) (depth : Nat) (parts : List SingleDeclaration) :
    Agrees (parts.forM (SingleDeclaration.print d depth))
      fun before => parts.foldl (SingleDeclaration.outlineAfter d depth) before := by
  induction parts with
  | nil => exact .nil
  | cons part parts ih => exact (part.agrees d depth).append ih

theorem Declaration.agrees (d : Decoration) (depth : Nat) (declaration : Declaration) :
    Agrees (declaration.print d depth) fun before => declaration.outlineAfter d depth before := by
  cases declaration with
  | single declaration => exact declaration.agrees d depth
  | sequential _ parts => exact .append (.line (printHead_eq _ _)) (agrees_declarations d (depth + 1) parts)

mutual

theorem Command.agrees (d : Decoration) (depth : Nat) : ∀ c : Command,
    Agrees (c.print d depth) fun before => c.outlineAfter d depth before
  | .assign _ _ value =>
    .append (.line (printHead_eq _ _)) (.append
      (.line (bind_eq_text (printNamedHead_eq _ _ _) (d.printLink_eq _))) (value.agrees d (depth + 1)))
  | .blank _ | .error _ => .line (printHead_eq _ _)
  | .call _ _ argument =>
    .append (.line (bind_eq_text (printNamedHead_eq _ _ _) (d.printLink_eq _))) (argument.agrees d (depth + 1))
  | .ifThen _ condition body | .while_ _ condition body =>
    .append (.line (printHead_eq _ _)) ((condition.agrees d (depth + 1)).append (body.agrees d (depth + 1)))
  | .ifElse _ condition positive negative =>
    .append (.line (printHead_eq _ _)) ((condition.agrees d (depth + 1)).append
      ((positive.agrees d (depth + 1)).append (negative.agrees d (depth + 1))))
  | .for_ _ _ first last body =>
    .append (.line (printHead_eq _ _)) (.append
      (.line (bind_eq_text (printNamedHead_eq _ _ _) (d.printType_eq _)))
      ((first.agrees d (depth + 1)).append ((last.agrees d (depth + 1)).append (body.agrees d (depth + 1)))))
  | .let_ _ declaration body =>
    .append (.line (printHead_eq _ _)) ((declaration.agrees d (depth + 1)).append (body.agrees d (depth + 1)))
  | .sequential _ parts => .append (.line (printHead_eq _ _)) (agrees_commands d (depth + 1) parts)

theorem agrees_commands (d : Decoration) (depth : Nat) : ∀ parts : List Command,
    Agrees (printCommands d depth parts) fun before => outlineOfCommandsAfter d depth before parts
  | [] => .nil
  | c :: rest => (c.agrees d depth).append (agrees_commands d depth rest)

end

/-- A tree that is written on the way through it comes to the same as its text written at once. -/
theorem Program.write_eq (p : Program) (links : Option Resolution) (types : Option Types) (b : Buffer) :
    p.write links types b = b.write (p.render links types).toUTF8.data.toList := by
  obtain ⟨lines, houtline, hprint⟩ := p.command.agrees ⟨links, types, p.sites⟩ 0
  have hlines : p.outline links types = lines := by
    rw [Program.outline, houtline]
    rfl
  rw [Program.write, hprint, Printer.outcome_text, Program.render, hlines]

/-! ### First bytes -/

/-- What writing `output` into a buffer of `capacity` bytes has to leave: as many of its first bytes as
    there is room for, and an error if these are not all. -/
structure Buffer.KeepsFirst (capacity : Nat) (output : List UInt8) (result : Option WriteError × Buffer) :
    Prop where
  bytes : result.2.bytes.toList = output.take (min capacity output.length)
  fails_iff : result.1 = some .full ↔ capacity < output.length

theorem Buffer.keepsFirst_write (capacity : Nat) (output : List UInt8) :
    KeepsFirst capacity output ((Buffer.empty capacity).write output) where
  bytes := by
    rw [write, Array.toList_appendList]
    simp [Buffer.empty, List.take_eq_take_iff]
  fails_iff := by
    by_cases hroom : output.length ≤ capacity
    · simp [write, Buffer.empty, hroom]
    · simp [write, Buffer.empty, hroom, Nat.lt_of_not_le hroom]

/-- A buffer that a tree is written into, or code in one of its two forms, holds the first bytes of the
    output, as many as there is room for, and writing fails if and only if there are more. -/
theorem Buffer.writing_keeps_first_bytes (capacity : Nat) :
    (∀ (p : Program) (links : Option Resolution) (types : Option Types),
      KeepsFirst capacity (p.render links types).toUTF8.data.toList (p.write links types (.empty capacity))) ∧
    ∀ c : Machine.Code,
      KeepsFirst capacity c.text.toUTF8.toList (c.write .text (.empty capacity)) ∧
      KeepsFirst capacity c.binary (c.write .binary (.empty capacity)) := by
  refine ⟨fun p links types => ?_, fun c => ⟨?_, ?_⟩⟩
  · rw [Program.write_eq]
    exact keepsFirst_write capacity _
  · exact keepsFirst_write capacity c.text.toUTF8.toList
  · exact keepsFirst_write capacity c.binary

end TriangleCompiler
