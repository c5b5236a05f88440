import TriangleCompiler.Proofs.Compilation.Balance
import TriangleCompiler.Proofs.Evaluation.Unchanged
import TriangleCompiler.Proofs.Generation.Frames
import TriangleCompiler.Proofs.Machine.CountingLoops

/-! The loops of compiled programs that count from one literal to another. Their bodies leave the counter as
    it is unless they assign it or pass it by reference, so such a loop carries its body out once for each
    word between its bounds, and then ends. Only with the largest word as its bound it never ends. -/

namespace TriangleCompiler

open Evaluation Generation Machine Typing

/-! ### Commands that come to their end -/

/-- Every stack of the right height holds the words of some store. -/
theorem Generation.Layout.exists_represents {L : Layout} {stack : List Word} (h : stack.length = L.size) :
    ∃ store, L.Represents store stack := by
  refine ⟨fun id => ((L.place? id).bind (Place.word? stack)).getD 0, h, ?_⟩
  intro id p hp
  simp only [hp, Option.bind_some]
  cases p with
  | known value => rfl
  | slot assignable k =>
    have hlt : k < stack.length := h ▸ Layout.lt_size hp
    simp [Place.word?, hlt]

theorem Generation.At.cut {code piece : List Instruction} {start : Nat} (h : At code start piece)
    (rest : List Instruction) : At (code.take (start + piece.length) ++ rest) start piece := by
  obtain ⟨before, after, rfl, rfl⟩ := h
  refine ⟨before, rest, ?_, rfl⟩
  rw [← List.append_assoc before, ← List.length_append, List.take_left, List.append_assoc]

section Stands
variable {σ : Type} {I : Interpretation σ} {links : Resolution} {code : List Instruction} {L : Layout}
  {start : Nat} {x : Command} {s : World σ} {c d : Config σ} {route : List Nat}

/-- If the machine comes to the end of the code of a command for the first time, the evaluation of the
    command comes to its end there as well. -/
theorem Stands.eval_of_route (h : Stands links code L start x) (hcode : code.length ≤ Word.max)
    {stop : Nat} (hstop : stop = start + (x.code links (cappedTarget Word.max) L start).length)
    (hlt : stop < code.length) (hc : Matches L start s c) (hroute : Route I code c route d) (hd : d.pc = stop)
    (hbefore : ∀ a ∈ route, a < stop) :
    ∃ fuel s', x.eval I links fuel s = .finished s' ∧ Matches L stop s' d := by
  obtain ⟨Γ, ds, hfits, htyped⟩ := h.typed
  -- the code with an instruction that halts the machine right behind the command
  let cut := code.take stop ++ [Instruction.halt]
  have hcut : cut.length ≤ Word.max := by
    simp only [cut, List.length_append, List.length_take, List.length_singleton]
    omega
  have hat : At cut start (x.code links (cappedTarget Word.max) L start) := by
    simp only [cut, hstop]
    exact h.located.cut [.halt]
  have hroute' : Route I cut c route d := hroute.congr fun a ha => by
    rw [List.getElem?_append_left (by rw [List.length_take]; have := hbefore a ha; omega),
      List.getElem?_take_of_lt (hbefore a ha)]
  have hhalted : ∀ e : Config σ, e.pc = stop → Halted cut e := by
    intro e he
    have hget : cut[stop]? = some .halt := by
      have hlength : (code.take stop).length = stop := by
        rw [List.length_take, Nat.min_eq_left (Nat.le_of_lt hlt)]
      rw [List.getElem?_append_right (Nat.le_of_eq hlength), hlength, Nat.sub_self]
      rfl
    rw [Halted, he, hget]
    rfl
  have hend := (hhalted d hd).step?_eq_none (I := I)
  have hsim := htyped.simulates (I := I) (n := route.length + 1) hfits h.nodup h.unplaced h.size_le hcut hat hc
  cases heval : x.eval I links (route.length + 1) s with
  | finished s' =>
    rw [heval] at hsim
    obtain ⟨e, hreaches, he⟩ := hsim
    rw [← hstop] at he
    have hpc : e.pc = stop := by
      obtain ⟨stack, rfl, -⟩ := he
      rfl
    have heq := hroute'.reaches.unique hend hreaches (hhalted e hpc).step?_eq_none
    exact ⟨_, s', heval, heq ▸ he⟩
  | failed =>
    rw [heval] at hsim
    obtain ⟨e, hreaches, hstuck, hnot⟩ := hsim
    have heq := hroute'.reaches.unique hend hreaches hstuck
    exact absurd (hhalted d hd) (heq ▸ hnot)
  | outOfFuel =>
    rw [heval] at hsim
    have hsome : (steps? I cut (route.length + 1) c).isSome := hsim
    rw [steps?_eq_none hroute'.steps?_eq hend (Nat.lt_succ_self _)] at hsome
    cases hsome

/-- If the machine comes from the start of a command to its end at all, it stays in the command until then and
    does not come to the start again. -/
theorem Stands.first_arrival (h : Stands links code L start x) (hcode : code.length ≤ Word.max)
    (hc : c.pc = start) (hreaches : Reaches I code c d)
    (hd : d.pc = start + (x.code links (cappedTarget Word.max) L start).length) :
    let stop := start + (x.code links (cappedTarget Word.max) L start).length
    ∃ route e, Route I code c route e ∧ e.pc = stop ∧ Inside start stop route ∧
      Inside (start + 1) stop route.tail := by
  intro stop
  obtain ⟨route, hroute⟩ := hreaches.exists_route
  by_cases hempty : start = stop
  · exact ⟨[], c, .refl c, hc.trans hempty, .nil, .nil⟩
  · cases hroute with
    | refl => exact absurd (hc.symm.trans hd) hempty
    | @step c c' d route hstep hrest =>
      have hstep' : ∀ c d : Config σ, Machine.step? I code c = some d → start ≤ c.pc → c.pc < stop →
          start < d.pc ∧ d.pc ≤ stop := fun _ _ => h.step? hcode
      have hlt : c.pc < stop := by omega
      obtain ⟨hlo, hhi⟩ := hstep' c c' hstep (Nat.le_of_eq hc.symm) hlt
      obtain ⟨route, e, hroute, he, hinside⟩ := hrest.first_arrival hd hlo hhi hstep'
      refine ⟨_, e, .step hstep hroute, he, ?_, hinside⟩
      rintro a (_ | ⟨_, ha⟩)
      · exact ⟨Nat.le_of_eq hc.symm, hlt⟩
      · exact ⟨Nat.le_of_succ_le (hinside a ha).1, (hinside a ha).2⟩

end Stands

/-! ### Loops that count -/

/-- A loop from one integer literal to another. Literals that are no words do not pass the checks. -/
structure LiteralLoop where
  position : Position
  counter : LoopVariable
  firstTag : Tag
  firstText : String
  first : Word
  first_eq : Literal.intValue? firstText = some first
  lastTag : Tag
  lastText : String
  last : Word
  last_eq : Literal.intValue? lastText = some last
  body : Command

namespace LiteralLoop

variable (loop : LiteralLoop)

def command : Command :=
  .for_ loop.position loop.counter (.int loop.firstTag loop.firstText) (.int loop.lastTag loop.lastText) loop.body

/-- The addresses in the code of the loop. -/
def span (links : Resolution) (L : Layout) (start : Nat) : LoopSpan :=
  let top := start + 4
  let stop := top + (loop.body.code links (cappedTarget Word.max) (L.allocate loop.counter.id true) top).length
  ⟨start, top, stop, stop + 7⟩

variable {loop} {links : Resolution} {code : List Instruction} {L : Layout} {start : Nat}
  (h : Stands links code L start loop.command) (hcode : code.length ≤ Word.max)
include h hcode

theorem countingLoop : CountingLoop code L.size loop.first loop.last (loop.span links L start) := by
  have hsize := h.size_le
  let inside := loop.body.code links (cappedTarget Word.max) (L.allocate loop.counter.id true) (start + 4)
  let bottom := start + 4 + (inside ++ [loadSlot L.size, .call .succ, storeSlot L.size]).length
  have hat : At code start (.push 1 :: .loadLiteral loop.first :: storeSlot L.size ::
      .jump (cappedTarget Word.max bottom) :: (inside ++ [loadSlot L.size, .call .succ, storeSlot L.size,
        loadSlot L.size, .loadLiteral loop.last, .call .le,
        .jumpIf (Word.ofBool true) (cappedTarget Word.max (start + 4)), .pop (Int16.ofNat 1)])) := by
    simpa only [command, Command.code, Expr.code, literalCode, loop.first_eq, loop.last_eq, Option.toList_some,
      List.map_cons, List.map_nil, List.cons_append, List.nil_append, List.append_assoc, List.length_cons,
      List.length_nil] using h.located
  have hroom := Nat.le_trans hat.length_le hcode
  have hbottom : bottom = start + 4 + inside.length + 3 := by simp [bottom, Nat.add_assoc]
  simp only [List.length_cons, List.length_append, List.length_nil] at hroom
  have hbehind := hat.tail.tail.tail.tail.right
  refine ⟨by omega, rfl, Nat.le_add_right _ _, rfl, hat.head, hat.tail.head, hat.tail.tail.head, ⟨_,
    hat.tail.tail.tail.head, ?_⟩, hbehind.head, hbehind.tail.head, hbehind.tail.tail.head,
    hbehind.tail.tail.tail.head, hbehind.tail.tail.tail.tail.head, hbehind.tail.tail.tail.tail.tail.head, ⟨_,
    hbehind.tail.tail.tail.tail.tail.tail.head, index?_cappedTarget (by omega)⟩,
    hbehind.tail.tail.tail.tail.tail.tail.tail.head⟩
  rw [hbottom]
  exact index?_cappedTarget (by omega)

/-- A body that neither assigns the counter nor passes it by reference leaves it as it is. -/
theorem keepsCounter {σ : Type} {I : Interpretation σ} (hbody : loop.counter.id ∉ loop.body.assigned links) :
    (loop.span links L start).KeepsCounter I code L.size := by
  obtain ⟨hlt, -⟩ := List.getElem?_eq_some_iff.mp (countingLoop h hcode).leave
  simp only [span] at hlt
  have hinner : Stands links code (L.allocate loop.counter.id true) (start + 4) loop.body := by
    have hinside := Stands.inside (f := .for_ loop.position loop.counter (.int loop.firstTag loop.firstText)
      (.int loop.lastTag loop.lastText)) h hcode
    simp only [CommandFrame.offset, Expr.code, literalCode, loop.first_eq] at hinside
    exact hinside
  intro w c d hc hreaches hd
  have hpc : c.pc = start + 4 := hc.pc_eq
  obtain ⟨route, e, hroute, he, hinside, htail⟩ := hinner.first_arrival hcode hpc hreaches hd
  refine ⟨route, e, hroute, ?_, hinside, htail⟩
  -- the evaluation of the body comes to its end as well, with the same counter
  obtain ⟨store, hstore⟩ := Layout.exists_represents (L := L.allocate loop.counter.id true) hc.length_eq
  have hmatches : Matches (L.allocate loop.counter.id true) (start + 4) ⟨store, c.io⟩ c :=
    ⟨c.stack, by rw [← hpc], hstore⟩
  obtain ⟨fuel, s', heval, stack, rfl, hstack⟩ := hinner.eval_of_route hcode rfl (by omega) hmatches hroute he
    fun a ha => (hinside a ha).2
  have hplace := Layout.place?_allocate_self (L := L) loop.counter.id true
  have hids := (within_for loop.position loop.counter _ _ loop.body).nodup h.nodup
  have hword : store loop.counter.id = w := Option.some.inj ((hstore.holds _ _ hplace).symm.trans hc.word_eq)
  have hsame : s'.store loop.counter.id = w :=
    loop.body.ensures_eval (s := ⟨store, c.io⟩) hword hbody (List.nodup_cons.mp hids).1 s' heval
  exact ⟨rfl, hstack.length_eq, hsame ▸ hstack.holds _ _ hplace⟩

end LiteralLoop

/-- The loop from one literal to another that a command is. -/
def Command.literalLoop? : Command → Option LiteralLoop
  | .for_ position counter (.int firstTag firstText) (.int lastTag lastText) body =>
    match hfirst : Literal.intValue? firstText, hlast : Literal.intValue? lastText with
    | some first, some last =>
      some ⟨position, counter, firstTag, firstText, first, hfirst, lastTag, lastText, last, hlast, body⟩
    | _, _ => none
  | _ => none

theorem Command.eq_of_literalLoop? {x : Command} {loop : LiteralLoop} (h : x.literalLoop? = some loop) :
    x = loop.command := by
  unfold Command.literalLoop? at h
  split at h
  · split at h
    · cases h
      rfl
    · cases h
  · cases h

/-- Routines that count in words. The others give 0 and do nothing. -/
def Machine.wordRoutines : Interpretation Unit
  | .succ, [w], io => some (w + 1, io)
  | .le, [v, w], io => some (Word.ofBool (decide (v ≤ w)), io)
  | _, _, io => some (0, io)

theorem Machine.countsInWords_wordRoutines : CountsInWords wordRoutines := ⟨fun _ _ => rfl, fun _ _ _ => rfl⟩

/-- A body that only ends a line of the output comes to its end from everywhere. -/
theorem Machine.bodyEnds_putEol {code : List Instruction} {span : LoopSpan}
    (hbody : code[span.top]? = some (.call .putEol)) (hstop : span.stop = span.top + 1) (c : Config Unit) :
    span.BodyEnds wordRoutines code c := by
  rintro route ⟨pc, stack, io⟩ - - hpc
  obtain rfl : pc = span.top := hpc
  have hcall : callPrimitive? wordRoutines .putEol ⟨span.top, stack ++ [], io⟩ = _ :=
    callPrimitive?_procedure rfl
  rw [List.append_nil] at hcall
  exact ⟨_, .single ((step?_call .putEol hbody).trans hcall), hstop.symm⟩

/-! ### Compiled programs -/

namespace Compilation

variable {source : String} {c : Compilation} {code : Code} {p : Program} {links : Resolution}

/-- Compiled code has the code of its program at its start. In every run the stack has the height that comes
    of the instructions in front of the next one. -/
theorem stands_of_result (hrun : Compilation.run source = .ok c) (hresult : c.result = .ok code)
    (hprogram : c.program = some p) (hlinks : c.resolution = some links) :
    Stands links code.instructions.toList .empty 0 p.command ∧ code.instructions.toList.length ≤ Word.max ∧
      ∀ {σ : Type} {I : Interpretation σ} {io : σ} {d : Config σ},
        Reaches I code.instructions.toList (.initial io) d → d.pc < code.instructions.toList.length →
          d.stack.length = heightAfter 0 (code.instructions.toList.take d.pc) := by
  obtain ⟨p, links, types, ds, hp, hl, hchecked, hcode, hlength⟩ := exists_of_result hrun hresult
  cases hp.symm.trans hprogram
  cases hl.symm.trans hlinks
  rw [hcode, Program.fullCode] at hlength ⊢
  refine ⟨⟨⟨.empty, ds, Layout.fits_empty _, hchecked.wellTyped⟩, hchecked.counted.nodup, fun _ _ => rfl,
    Nat.le_refl 0, ⟨[], [.halt], rfl, rfl⟩, rfl⟩, hlength, fun hd hlt => ?_⟩
  rw [List.length_append, List.length_singleton] at hlength hlt
  have hflows := Program.flows hchecked.wellTyped hchecked.counted.nodup (by omega)
  rw [hflows.balanced.stack_length hd, List.take_append_of_le_length (by omega)]

/-- In a program that is compiled without an error there is a loop from a literal to one that is not less, and
    its body neither assigns the counter nor passes it by reference. The machine counts in words and comes, in
    a run of the program, to the loop, and each time that it comes to the body it gets to its end. Where
    the last bound is less than the largest word, the machine comes to the body once for each word between the
    bounds and then, for the first time, to the instruction that ends the loop's scope. Where it is the largest
    word, the machine stays in the loop forever and comes to the body again and again. -/
theorem run_counts_loops (hrun : Compilation.run source = .ok c) (hresult : c.result = .ok code)
    (hprogram : c.program = some p) (hlinks : c.resolution = some links) {frames : List CommandFrame}
    {loop : LiteralLoop} (hloop : p.command = CommandFrame.plugAll frames loop.command)
    (hle : loop.first ≤ loop.last) (hbody : loop.counter.id ∉ loop.body.assigned links) {σ : Type}
    {I : Interpretation σ} (hI : CountsInWords I) {io : σ} {d : Config σ}
    (hd : Reaches I code.instructions.toList (.initial io) d) :
    let span := loop.span links (CommandFrame.layoutAll .empty frames)
      (CommandFrame.address links (cappedTarget Word.max) .empty 0 frames)
    d.pc = span.start → span.BodyEnds I code.instructions.toList d →
      code.instructions.toList[span.exit]? = some (.pop (Int16.ofNat 1)) ∧
      (loop.last.toInt < Word.max → ∃ route e, Route I code.instructions.toList d route e ∧
        Inside span.start span.exit route ∧ e.pc = span.exit ∧
        (route.count span.top : Int) = loop.last.toInt - loop.first.toInt + 1) ∧
      (loop.last.toInt = Word.max → (∀ e, Reaches I code.instructions.toList d e →
          span.start ≤ e.pc ∧ e.pc < span.exit) ∧
        ∀ m, ∃ route e, Route I code.instructions.toList d route e ∧ route.count span.top = m) := by
  intro span hpc hends
  obtain ⟨hstands, hlength, hheight⟩ := stands_of_result hrun hresult hprogram hlinks
  rw [hloop] at hstands
  have hinside := hstands.inside_all hlength
  have hcounting := LiteralLoop.countingLoop hinside hlength
  have hkeeps := LiteralLoop.keepsCounter (I := I) hinside hlength hbody
  obtain ⟨hlt, -⟩ := List.getElem?_eq_some_iff.mp hcounting.allocate
  have hstack : d.stack.length = (CommandFrame.layoutAll .empty frames).size := by
    rw [hheight hd (hpc ▸ hlt), hpc]
    exact hinside.height
  exact ⟨hcounting.leave, hcounting.leaves hI hkeeps hpc hstack hends hle,
    hcounting.never_leaves hI hkeeps hpc hstack hends⟩

/-- In a scope with a variable, behind an assignment, a loop from 2 to 4 carries its body out three times. -/
theorem run_counts_three :
    let source := "let var n : Integer in begin n := 7; for i := 2 to 4 do puteol() next end"
    ∃ c code p links frames loop, Compilation.run source = .ok c ∧ c.result = .ok code ∧ c.program = some p ∧
      c.resolution = some links ∧ p.command = CommandFrame.plugAll frames (LiteralLoop.command loop) ∧
      frames.length = 2 ∧ loop.first = 2 ∧ loop.last = 4 ∧ loop.counter.id ∉ loop.body.assigned links ∧
      CountsInWords wordRoutines ∧ Reaches wordRoutines code.instructions.toList (.initial ()) ⟨3, [7], ()⟩ ∧
      (⟨3, 7, 8, 15⟩ : LoopSpan).BodyEnds wordRoutines code.instructions.toList ⟨3, [7], ()⟩ ∧
      ∃ route e, Route wordRoutines code.instructions.toList ⟨3, [7], ()⟩ route e ∧
        Inside 3 15 route ∧ e.pc = 15 ∧ route.count 7 = 3 := by
  intro source
  have hcompiled : ((Compilation.run source).toOption.any fun c => c.result.toOption.any fun code =>
      c.program.any fun p => c.resolution.any fun links => p.command.places.any fun q =>
        decide (q.1.length = 2) && q.2.literalLoop?.any fun loop =>
          decide (loop.first = 2) && decide (loop.last = 4) &&
          decide (loop.counter.id ∉ loop.body.assigned links) &&
          decide (loop.span links (CommandFrame.layoutAll .empty q.1)
            (CommandFrame.address links (cappedTarget Word.max) .empty 0 q.1) = ⟨3, 7, 8, 15⟩) &&
          decide (code.instructions.toList.take 3 = [.push 1, .loadLiteral 7, ⟨.store, .sb, 1, 0⟩]) &&
          decide (code.instructions.toList[7]? = some (.call .putEol))) = true := by
    decide +kernel
  simp only [Option.any_eq_true, List.any_eq_true, Bool.and_eq_true, decide_eq_true_eq] at hcompiled
  obtain ⟨c, hrun, code, hresult, p, hp, links, hlinks, ⟨frames, x⟩, hplace, hframes, loop, hloop,
    ⟨⟨⟨⟨⟨hfirst, hlast⟩, hbody⟩, hspan⟩, hstart⟩, hput⟩⟩ := hcompiled
  replace hrun := eq_ok_of_toOption hrun
  replace hresult := eq_ok_of_toOption hresult
  have hcommand : p.command = CommandFrame.plugAll frames loop.command := by
    rw [← Command.eq_of_literalLoop? hloop]
    exact p.command.eq_of_mem_places hplace
  have hd : Reaches wordRoutines code.instructions.toList (.initial ()) ⟨3, [7], ()⟩ := by
    rw [← List.take_append_drop 3 code.instructions.toList, hstart]
    exact ⟨3, rfl⟩
  have hends : (⟨3, 7, 8, 15⟩ : LoopSpan).BodyEnds wordRoutines code.instructions.toList ⟨3, [7], ()⟩ :=
    bodyEnds_putEol hput rfl _
  have hle : loop.first ≤ loop.last := by
    rw [hfirst, hlast]
    decide
  obtain ⟨-, hcounts, -⟩ := run_counts_loops hrun hresult hp hlinks hcommand hle hbody
    countsInWords_wordRoutines hd (by rw [hspan]) (by rw [hspan]; exact hends)
  rw [hspan, hfirst, hlast] at hcounts
  obtain ⟨route, e, hroute, hinside, he, hcount⟩ := hcounts (by decide)
  refine ⟨c, code, p, links, frames, loop, hrun, hresult, hp, hlinks, hcommand, hframes, hfirst, hlast, hbody,
    countsInWords_wordRoutines, hd, hends, route, e, hroute, hinside, he, Int.ofNat.inj ?_⟩
  exact hcount

/-- A loop that should carry its body out once, since both of its bounds are the largest word, never gets to
    the instruction that ends its scope, though its body always comes to its end. -/
theorem run_loops_forever :
    let source := "for i := 32767 to 32767 do puteol() next"
    ∃ c code, Compilation.run source = .ok c ∧ c.result = .ok code ∧ CountsInWords wordRoutines ∧
      (⟨0, 4, 5, 12⟩ : LoopSpan).BodyEnds wordRoutines code.instructions.toList (.initial ()) ∧
      code.instructions.toList[12]? = some (.pop (Int16.ofNat 1)) ∧
      ¬∃ e, Reaches wordRoutines code.instructions.toList (.initial ()) e ∧ e.pc = 12 := by
  intro source
  have hcompiled : ((Compilation.run source).toOption.any fun c => c.result.toOption.any fun code =>
      c.program.any fun p => c.resolution.any fun links => p.command.literalLoop?.any fun loop =>
        decide (loop.last = 32767) && decide (loop.counter.id ∉ loop.body.assigned links) &&
        decide (loop.span links .empty 0 = ⟨0, 4, 5, 12⟩) &&
        decide (code.instructions.toList[4]? = some (.call .putEol))) = true := by
    decide +kernel
  simp only [Option.any_eq_true, Bool.and_eq_true, decide_eq_true_eq] at hcompiled
  obtain ⟨c, hrun, code, hresult, p, hp, links, hlinks, loop, hloop, ⟨⟨hlast, hbody⟩, hspan⟩, hput⟩ := hcompiled
  replace hrun := eq_ok_of_toOption hrun
  replace hresult := eq_ok_of_toOption hresult
  obtain ⟨hstands, hlength, -⟩ := stands_of_result hrun hresult hp hlinks
  rw [Command.eq_of_literalLoop? hloop] at hstands
  have hcounting := LiteralLoop.countingLoop hstands hlength
  have hkeeps := LiteralLoop.keepsCounter (I := wordRoutines) hstands hlength hbody
  rw [hspan] at hcounting hkeeps
  have hends : (⟨0, 4, 5, 12⟩ : LoopSpan).BodyEnds wordRoutines _ _ := bodyEnds_putEol hput rfl (.initial ())
  obtain ⟨hstays, -⟩ := hcounting.never_leaves countsInWords_wordRoutines hkeeps rfl rfl hends
    (by rw [hlast]; decide)
  refine ⟨c, code, hrun, hresult, countsInWords_wordRoutines, hends, hcounting.leave, ?_⟩
  rintro ⟨e, he, hpc⟩
  exact Nat.lt_irrefl 12 (hpc ▸ (hstays e he).2)

end Compilation

end TriangleCompiler
