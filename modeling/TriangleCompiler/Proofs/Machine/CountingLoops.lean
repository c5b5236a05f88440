import TriangleCompiler.Proofs.Machine.Routes

/-! Loops that count. The counter is a word on the stack, which is counted up behind the body and compared
    with a bound before the next round. Where the bound is less than the largest word the body is carried out
    once for every word up to the bound. The largest word is no bound: no word is beyond it, since the counter
    starts again with the least word, and the machine never gets out of the loop. -/

namespace TriangleCompiler.Machine

/-- The routines count words up, from the largest to the least one, and compare them as numbers with a
    sign. -/
structure CountsInWords {σ : Type} (I : Interpretation σ) : Prop where
  succ : ∀ w io, I .succ [w] io = some (w + 1, io)
  le : ∀ v w io, I .le [v, w] io = some (Word.ofBool (decide (v ≤ w)), io)

/-- The addresses of a loop that counts. -/
structure LoopSpan where
  /-- The first instruction of the loop. -/
  start : Nat
  /-- The first instruction of the body. -/
  top : Nat
  /-- The address right behind the body. -/
  stop : Nat
  /-- The instruction that ends the scope of the counter. -/
  exit : Nat
deriving DecidableEq, Repr

/-- A loop that counts the word in a slot from one literal up to another; what its body is does not
    matter. -/
structure CountingLoop (code : List Instruction) (slot : Nat) (first last : Word) (span : LoopSpan) : Prop where
  slot_le : slot ≤ Word.max
  top_eq : span.top = span.start + 4
  top_le : span.top ≤ span.stop
  exit_eq : span.exit = span.stop + 7
  allocate : code[span.start]? = some (.push 1)
  loadFirst : code[span.start + 1]? = some (.loadLiteral first)
  storeFirst : code[span.start + 2]? = some ⟨.store, .sb, 1, Int16.ofNat slot⟩
  enter : ∃ target, code[span.start + 3]? = some (.jump target) ∧ Word.index? target = some (span.stop + 3)
  loadCounter : code[span.stop]? = some ⟨.load, .sb, 1, Int16.ofNat slot⟩
  countUp : code[span.stop + 1]? = some (.call .succ)
  storeCounter : code[span.stop + 2]? = some ⟨.store, .sb, 1, Int16.ofNat slot⟩
  loadTested : code[span.stop + 3]? = some ⟨.load, .sb, 1, Int16.ofNat slot⟩
  loadLast : code[span.stop + 4]? = some (.loadLiteral last)
  compare : code[span.stop + 5]? = some (.call .le)
  again : ∃ target, code[span.stop + 6]? = some (.jumpIf (Word.ofBool true) target) ∧
    Word.index? target = some span.top
  leave : code[span.exit]? = some (.pop (Int16.ofNat 1))

/-- The machine is at an address of the loop, with this word as the counter on top of the stack. -/
structure Counting {σ : Type} (slot : Nat) (w : Word) (pc : Nat) (c : Config σ) : Prop where
  pc_eq : c.pc = pc
  length_eq : c.stack.length = slot + 1
  word_eq : c.stack[slot]? = some w

section
variable {σ : Type} (I : Interpretation σ) (code : List Instruction) (span : LoopSpan)

/-- Every time that the machine comes from `c` to the body, it gets to the end of the body, for as long as it
    is in the loop. -/
def LoopSpan.BodyEnds (c : Config σ) : Prop :=
  ∀ route d, Route I code c route d → Inside span.start span.exit route → d.pc = span.top →
    ∃ e, Reaches I code d e ∧ e.pc = span.stop

/-- If the body ends, the machine comes to its end the first time without leaving it, and without coming to
    its first instruction again. The counter is as before. -/
def LoopSpan.KeepsCounter (slot : Nat) : Prop :=
  ∀ w (c d : Config σ), Counting slot w span.top c → Reaches I code c d → d.pc = span.stop →
    ∃ route e, Route I code c route e ∧ Counting slot w span.stop e ∧ Inside span.top span.stop route ∧
      Inside (span.top + 1) span.stop route.tail

end

variable {σ : Type} {I : Interpretation σ} {code : List Instruction} {slot : Nat} {first last w : Word}
  {span : LoopSpan} {c d : Config σ}

theorem LoopSpan.BodyEnds.of_route {route : List Nat} (h : span.BodyEnds I code c)
    (hroute : Route I code c route d) (hinside : Inside span.start span.exit route) : span.BodyEnds I code d :=
  fun route' e hroute' hinside' => h (route ++ route') e (hroute.trans hroute') (hinside.append hinside')

/-- Counting up does not go beyond the largest word. -/
theorem toInt_add_ofNat {k : Nat} (h : w.toInt + k ≤ Word.max) : (w + Int16.ofNat k).toInt = w.toInt + k := by
  have hlo := Int16.le_toInt w
  unfold Word.max at h
  rw [Int16.toInt_add, Int16.toInt_ofNat', Int.add_bmod_bmod]
  exact Int.bmod_eq_of_le (by simp only [Int16.size]; omega) (by simp only [Int16.size]; omega)

namespace CountingLoop

variable (h : CountingLoop code slot first last span) (hI : CountsInWords I)
include h

/-! ### What the instructions around the body do -/

/-- The counter gets its first word, and the machine goes to the test. -/
theorem enters (hpc : c.pc = span.start) (hlength : c.stack.length = slot) :
    ∃ d, Route I code c [span.start, span.start + 1, span.start + 2, span.start + 3] d ∧
      Counting slot first (span.stop + 3) d := by
  obtain ⟨pc, stack, io⟩ := c
  obtain rfl : pc = span.start := hpc
  obtain rfl : stack.length = slot := hlength
  obtain ⟨target, hjump, htarget⟩ := h.enter
  have hstore : step? I code ⟨span.start + 2, stack ++ [0] ++ [first], io⟩ =
      some ⟨span.start + 3, (stack ++ [0]).set stack.length first, io⟩ :=
    step?_store h.storeFirst h.slot_le (by simp)
  refine ⟨_, .step (step?_push h.allocate) (.step (step?_loadLiteral h.loadFirst)
    (.step hstore (.single (step?_jump hjump htarget)))), rfl, by simp, ?_⟩
  exact List.getElem?_set_self (by simp)

include hI

/-- The counter is counted up. -/
theorem counts_up (hc : Counting slot w span.stop c) :
    ∃ d, Route I code c [span.stop, span.stop + 1, span.stop + 2] d ∧
      Counting slot (w + 1) (span.stop + 3) d := by
  obtain ⟨pc, stack, io⟩ := c
  obtain ⟨hpc, hlength, hword⟩ := hc
  obtain rfl : pc = span.stop := hpc
  obtain ⟨hlt, -⟩ : ∃ hlt : slot < stack.length, stack[slot] = w := List.getElem?_eq_some_iff.mp hword
  have hcall : step? I code ⟨span.stop + 1, stack ++ [w], io⟩ = some ⟨span.stop + 2, stack ++ [w + 1], io⟩ := by
    rw [step?_call .succ h.countUp]
    have hsucc : callPrimitive? I .succ ⟨span.stop + 1, stack ++ [w], io⟩ = _ := callPrimitive?_function rfl
    rw [hsucc, hI.succ]
    rfl
  refine ⟨_, .step (step?_load h.loadCounter h.slot_le hword) (.step hcall
    (.single (step?_store h.storeCounter h.slot_le hlt))), rfl, by simpa using hlength, ?_⟩
  exact List.getElem?_set_self hlt

/-- The machine goes to the body if the counter is not beyond the bound, and otherwise out of the loop. -/
theorem tests (hc : Counting slot w (span.stop + 3) c) :
    ∃ d, Route I code c [span.stop + 3, span.stop + 4, span.stop + 5, span.stop + 6] d ∧
      Counting slot w (if w ≤ last then span.top else span.exit) d := by
  obtain ⟨pc, stack, io⟩ := c
  obtain ⟨hpc, hlength, hword⟩ := hc
  obtain rfl : pc = span.stop + 3 := hpc
  obtain ⟨target, hjump, htarget⟩ := h.again
  have hcall : step? I code ⟨span.stop + 5, stack ++ [w] ++ [last], io⟩ =
      some ⟨span.stop + 6, stack ++ [Word.ofBool (decide (w ≤ last))], io⟩ := by
    rw [step?_call .le h.compare, List.append_assoc]
    have hle : callPrimitive? I .le ⟨span.stop + 5, stack ++ [w, last], io⟩ = _ := callPrimitive?_function rfl
    rw [List.singleton_append, hle, hI.le]
    rfl
  refine ⟨_, .step (step?_load h.loadTested h.slot_le hword) (.step (step?_loadLiteral h.loadLast)
    (.step hcall (.single (step?_jumpIf hjump htarget)))), ?_, hlength, hword⟩
  rw [h.exit_eq]
  by_cases hle : w ≤ last
  · simp [hle]
  · simp [hle, Word.ofBool]

/-! ### Rounds -/

variable (hkeeps : span.KeepsCounter I code slot)
include hkeeps

/-- A round starts with the first instruction of the body and does not come there again. -/
theorem round (hc : Counting slot w span.top c) (hends : span.BodyEnds I code c) :
    ∃ route d, Route I code c (span.top :: route) d ∧ Inside (span.top + 1) span.exit route ∧
      Counting slot (w + 1) (if w + 1 ≤ last then span.top else span.exit) d := by
  obtain ⟨d, hd, hstop⟩ := hends [] c (.refl c) .nil hc.pc_eq
  obtain ⟨route, e, hbody, he, hinside, htail⟩ := hkeeps w c d hc hd hstop
  obtain ⟨e', hcount, he'⟩ := h.counts_up hI he
  obtain ⟨d', htest, hd'⟩ := h.tests hI he'
  have hroute := hbody.trans (hcount.trans htest)
  have htop := h.top_le
  have hexit := h.exit_eq
  cases hbody with
  | refl =>
    -- a body without instructions: the round starts with what is behind it
    have hsame : span.stop = span.top := he.pc_eq.symm.trans hc.pc_eq
    simp only [hsame, List.cons_append, List.nil_append] at hroute
    refine ⟨_, d', hroute, ?_, hd'⟩
    intro a ha
    simp only [List.mem_cons, List.not_mem_nil, or_false] at ha
    omega
  | step hstep hrest =>
    rw [hc.pc_eq] at hroute hinside
    refine ⟨_, d', hroute, ?_, hd'⟩
    have hlt := (hinside span.top List.mem_cons_self).2
    refine (htail.mono (Nat.le_refl _) (by omega)).append ?_
    intro a ha
    simp only [List.cons_append, List.nil_append, List.mem_cons, List.not_mem_nil, or_false] at ha
    omega

/-- So many rounds, if the counter is not beyond the bound before the next one. -/
theorem rounds (m : Nat) (hc : Counting slot w span.top c) (hends : span.BodyEnds I code c)
    (hle : ∀ j < m, w + Int16.ofNat (j + 1) ≤ last) :
    ∃ route d, Route I code c route d ∧ Inside span.top span.exit route ∧ route.count span.top = m ∧
      Counting slot (w + Int16.ofNat m) span.top d ∧ span.BodyEnds I code d := by
  induction m generalizing w c with
  | zero => exact ⟨[], c, .refl c, .nil, rfl, by simpa using hc, hends⟩
  | succ m ih =>
    obtain ⟨route, d, hroute, hinside, hd⟩ := h.round hI hkeeps hc hends
    have hone : w + 1 ≤ last := hle 0 (Nat.succ_pos m)
    rw [if_pos hone] at hd
    have hcount := hinside.count_eq_zero (Nat.lt_succ_self span.top)
    have hexit := h.exit_eq
    have htop := h.top_eq
    have hstop := h.top_le
    have hround : Inside span.top span.exit (span.top :: route) := by
      rintro a (_ | ⟨_, ha⟩)
      · omega
      · exact ⟨Nat.le_of_succ_le (hinside a ha).1, (hinside a ha).2⟩
    have hshift : ∀ k, w + 1 + Int16.ofNat k = w + Int16.ofNat (k + 1) := by
      intro k
      rw [Int16.add_assoc, Int16.add_comm 1, Int16.ofNat_add]
      rfl
    obtain ⟨route', e, hroute', hinside', hcount', he, hends'⟩ := ih hd
      (hends.of_route hroute (hround.mono (by omega) (Nat.le_refl _)))
      (fun j hj => by rw [hshift]; exact hle (j + 1) (Nat.succ_lt_succ hj))
    refine ⟨_, e, hroute.trans hroute', hround.append hinside', ?_, hshift m ▸ he, hends'⟩
    rw [List.count_append, List.count_cons_self, hcount, hcount']
    omega

omit hkeeps in
/-- From the start of the loop the machine gets to the body, with the first word as the counter. -/
theorem first_round (hpc : c.pc = span.start) (hlength : c.stack.length = slot) (hle : first ≤ last)
    (hends : span.BodyEnds I code c) :
    ∃ route d, Route I code c route d ∧ Inside span.start span.exit route ∧ route.count span.top = 0 ∧
      Counting slot first span.top d ∧ span.BodyEnds I code d := by
  obtain ⟨d, henter, hd⟩ := h.enters hpc hlength
  obtain ⟨e, htest, he⟩ := h.tests hI hd
  rw [if_pos hle] at he
  have htop := h.top_eq
  have hstop := h.top_le
  have hexit := h.exit_eq
  have hroute := henter.trans htest
  simp only [List.cons_append, List.nil_append] at hroute
  have hinside : Inside span.start span.exit [span.start, span.start + 1, span.start + 2, span.start + 3,
      span.stop + 3, span.stop + 4, span.stop + 5, span.stop + 6] := by
    intro a ha
    simp only [List.mem_cons, List.not_mem_nil, or_false] at ha
    omega
  refine ⟨_, e, hroute, hinside, List.count_eq_zero.mpr fun ha => ?_, he, hends.of_route hroute hinside⟩
  simp only [List.mem_cons, List.not_mem_nil, or_false] at ha
  omega

/-- With a bound below the largest word the body is carried out once for every word up to the bound, and
    then the machine gets to the end of the loop. -/
theorem leaves (hpc : c.pc = span.start) (hlength : c.stack.length = slot) (hends : span.BodyEnds I code c)
    (hle : first ≤ last) (hlast : last.toInt < Word.max) :
    ∃ route d, Route I code c route d ∧ Inside span.start span.exit route ∧ d.pc = span.exit ∧
      (route.count span.top : Int) = last.toInt - first.toInt + 1 := by
  have hle' := Int16.le_iff_toInt_le.mp hle
  obtain ⟨m, hm⟩ : ∃ m : Nat, first.toInt + m = last.toInt := ⟨(last.toInt - first.toInt).toNat, by omega⟩
  obtain ⟨route₀, c₀, hroute₀, hinside₀, hcount₀, hc₀, hends₀⟩ := h.first_round hI hpc hlength hle hends
  obtain ⟨route₁, c₁, hroute₁, hinside₁, hcount₁, hc₁, hends₁⟩ := h.rounds hI hkeeps m hc₀ hends₀ fun j hj => by
    rw [Int16.le_iff_toInt_le, toInt_add_ofNat (by omega)]
    omega
  obtain ⟨route₂, c₂, hroute₂, hinside₂, hc₂⟩ := h.round hI hkeeps hc₁ hends₁
  -- the counter is at the bound, and the next word is beyond it
  have hbeyond : ¬first + Int16.ofNat m + 1 ≤ last := by
    have hnext : first + Int16.ofNat m + 1 = first + Int16.ofNat (m + 1) := by
      rw [Int16.add_assoc, Int16.ofNat_add]
      rfl
    rw [hnext, Int16.le_iff_toInt_le, toInt_add_ofNat (by omega)]
    omega
  rw [if_neg hbeyond] at hc₂
  have htop := h.top_eq
  have hstop := h.top_le
  have hexit := h.exit_eq
  have hcount₂ := hinside₂.count_eq_zero (Nat.lt_succ_self span.top)
  refine ⟨_, c₂, (hroute₀.trans hroute₁).trans hroute₂, (hinside₀.append (hinside₁.mono (by omega)
    (Nat.le_refl _))).append ?_, hc₂.pc_eq, ?_⟩
  · rintro a (_ | ⟨_, ha⟩)
    · omega
    · have := hinside₂ a ha
      omega
  · rw [List.count_append, List.count_append, List.count_cons_self, hcount₀, hcount₁, hcount₂]
    omega

/-- With the largest word as its bound the machine stays in the loop and carries the body out again and
    again. -/
theorem never_leaves (hpc : c.pc = span.start) (hlength : c.stack.length = slot)
    (hends : span.BodyEnds I code c) (hlast : last.toInt = Word.max) :
    (∀ d, Reaches I code c d → span.start ≤ d.pc ∧ d.pc < span.exit) ∧
      ∀ m, ∃ route d, Route I code c route d ∧ route.count span.top = m := by
  have hle : ∀ w : Word, w ≤ last := by
    intro w
    rw [Int16.le_iff_toInt_le, hlast]
    exact Int.le_of_lt_add_one (Int16.toInt_lt w)
  have hrounds : ∀ m, ∃ route d, Route I code c route d ∧ Inside span.start span.exit route ∧
      route.count span.top = m := by
    intro m
    obtain ⟨route₀, c₀, hroute₀, hinside₀, hcount₀, hc₀, hends₀⟩ := h.first_round hI hpc hlength (hle _) hends
    obtain ⟨route₁, c₁, hroute₁, hinside₁, hcount₁, -, -⟩ := h.rounds hI hkeeps m hc₀ hends₀ fun _ _ => hle _
    have htop := h.top_eq
    refine ⟨_, c₁, hroute₀.trans hroute₁, hinside₀.append (hinside₁.mono (by omega) (Nat.le_refl _)), ?_⟩
    rw [List.count_append, hcount₀, hcount₁, Nat.zero_add]
  refine ⟨?_, fun m => ?_⟩
  · rintro d ⟨n, hn⟩
    -- after enough rounds the route is longer than the run to `d`
    obtain ⟨route, e, hroute, hinside, hcount⟩ := hrounds (n + 1)
    have hlt : n < route.length := by
      have := List.count_le_length (a := span.top) (l := route)
      omega
    exact hinside d.pc (List.mem_of_getElem? (hroute.getElem?_eq hn hlt))
  · obtain ⟨route, d, hroute, -, hcount⟩ := hrounds m
    exact ⟨route, d, hroute, hcount⟩

end CountingLoop

end TriangleCompiler.Machine
