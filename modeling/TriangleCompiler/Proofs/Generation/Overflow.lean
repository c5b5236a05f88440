import TriangleCompiler.Proofs.Generation.DirectCode

/-! Code and storage that run out. A word of storage is taken only behind an instruction that was emitted for
    it, so as long as every instruction finds room the storage in use is no larger than the code. The code
    is therefore the first to run out, and what is reported of storage follows the report of that. This is
    so in every state that the generation passes through, whatever the program is. -/

namespace TriangleCompiler

namespace Generation

open Machine (Code Entity Instruction Storage Word)

/-- First the program is reported to be too large, and then at most scopes are. -/
def Overflows (errors : List Diagnostic) : Prop :=
  ∃ position scopes, errors = ⟨position, .size .programTooLarge⟩ :: scopes ∧
    ∀ d ∈ scopes, d.value = .size .scopeTooLarge

/-! ### The states that a pass goes through -/

/-- The passes that change the state, each of them at one go. -/
inductive Elementary : {α : Type} → GenerateM α → Prop where
  | emit (i : Instruction) : Elementary (emit i)
  | patch (address : Option Nat) : Elementary (patch address)
  | visit (position : Position) : Elementary (visit position)
  | openScope : Elementary openScope
  | dropScope : Elementary dropScope
  | allocate (size : UInt8) : Elementary (allocate size)
  | define (id : NodeId) (entity : Entity) : Elementary (define id entity)

/-- `Visits x s vs a t` says that the pass `x` leads from `s` to the value `a` and the state `t`, and that
    `vs` are the states behind its steps. What only looks at the state makes no step. -/
inductive Visits : {α : Type} → GenerateM α → State → List State → α → State → Prop where
  | step {α : Type} {x : GenerateM α} {s t : State} {a : α} : Elementary x → x s = .ok a t →
      Visits x s [t] a t
  | still {α : Type} {x : GenerateM α} {s : State} {a : α} : (∀ s a t, x s = .ok a t → t = s) →
      x s = .ok a s → Visits x s [] a s
  | bind {α β : Type} {x : GenerateM α} {g : α → GenerateM β} {s t u : State} {a : α} {b : β}
      {vs vs' : List State} : Visits x s vs a t → Visits (g a) t vs' b u →
      Visits (x >>= g) s (vs ++ vs') b u

/-! ### Storage that the code covers -/

/-- As long as every instruction has found room nothing is reported, and the storage in use, with `spare` more
    words, is no larger than the code. Otherwise it is reported that the program is too large. -/
structure Covered (spare : Nat) (s : State) : Prop where
  fits : s.overflowed = false → s.errors = #[] ∧ s.storage.totalSize + spare ≤ s.code.size
  overflows : s.overflowed = true → Overflows s.errors.toList

theorem Covered.mono {n m : Nat} {s : State} (h : Covered n s) (hle : m ≤ n) : Covered m s where
  fits hroom := ⟨(h.fits hroom).1, Nat.le_trans (Nat.add_le_add_left hle _) (h.fits hroom).2⟩
  overflows := h.overflows

theorem Covered.errors {n : Nat} {s : State} (h : Covered n s) :
    s.errors = #[] ∨ Overflows s.errors.toList := by
  cases hroom : s.overflowed with
  | false => exact Or.inl (h.fits hroom).1
  | true => exact Or.inr (h.overflows hroom)

/-- The pass goes through covered states only. If there are `n` spare words before it, there are `m` behind
    it. -/
def Covers {α : Type} (n m : Nat) (x : GenerateM α) : Prop :=
  ∀ s a t, Covered n s → x s = .ok a t → ∃ vs, Visits x s vs a t ∧ (∀ v ∈ vs, Covered 0 v) ∧ Covered m t

section Covers
variable {α β : Type} {x : GenerateM α} {g : α → GenerateM β} {n m k : Nat}

theorem Elementary.covers (h : Elementary x) (hx : ∀ s a t, Covered n s → x s = .ok a t → Covered m t) :
    Covers n m x := by
  intro s a t hs hok
  have ht := hx s a t hs hok
  refine ⟨[t], .step h hok, fun v hv => ?_, ht⟩
  rw [List.mem_singleton.mp hv]
  exact ht.mono (Nat.zero_le m)

namespace Covers

theorem still (h : ∀ s a t, x s = .ok a t → t = s) : Covers n n x := by
  intro s a t hs hok
  obtain rfl := h s a t hok
  exact ⟨[], .still h hok, List.forall_mem_nil _, hs⟩

theorem bind (hx : Covers n m x) (hg : ∀ a, Covers m k (g a)) : Covers n k (x >>= g) := by
  intro s b u hs hok
  obtain ⟨a, t, hxs, hok⟩ := Pass.exists_of_bind hok
  obtain ⟨vs, hvisits, hvs, ht⟩ := hx s a t hs hxs
  obtain ⟨vs', hvisits', hvs', hu⟩ := hg a t b u ht hok
  exact ⟨vs ++ vs', hvisits.bind hvisits', List.forall_mem_append.mpr ⟨hvs, hvs'⟩, hu⟩

theorem fewer (hx : Covers n m x) (hle : k ≤ m) : Covers n k x := by
  intro s a t hs hok
  obtain ⟨vs, hvisits, hvs, ht⟩ := hx s a t hs hok
  exact ⟨vs, hvisits, hvs, ht.mono hle⟩

end Covers

/-! ### Single operations -/

/-- An instruction that finds room covers one more word. -/
theorem covers_emit (i : Instruction) : Covers n (n + 1) (emit i) := by
  refine (Elementary.emit i).covers fun s address t hs hok => ?_
  rcases emit_cases i s with ⟨hfull, h⟩ | ⟨hnext, hroom, h⟩ | ⟨hnext, h⟩ <;> rw [h] at hok <;> cases hok
  · exact ⟨fun hnext => absurd (hfull.symm.trans hnext) (by decide), hs.overflows⟩
  · obtain ⟨herrors, hle⟩ := hs.fits hnext
    refine ⟨fun _ => ⟨herrors, ?_⟩, hs.overflows⟩
    simp only [Code.size, Code.append, Array.size_push]
    exact Nat.succ_le_succ hle
  · refine ⟨fun hnext => (by cases hnext), fun _ => ⟨s.position, [], ?_, List.forall_mem_nil _⟩⟩
    rw [(hs.fits hnext).1]
    rfl

/-- A covered word is there to be taken: as long as every instruction has found room, so does the word. -/
theorem covers_allocate {size : UInt8} (hsize : size.toNat ≤ 1) : Covers (n + 1) n (allocate size) := by
  refine (Elementary.allocate size).covers fun s offset t hs hok => ?_
  have hcode : s.code.size ≤ Word.max := Nat.le_trans s.code.bounded s.code.addressable
  rcases allocate_cases size s with ⟨fault, h⟩ | ⟨inner, rest, hsizes, hcases⟩
  · rw [h] at hok
    cases hok
  have htotal : s.storage.totalSize = inner + Storage.total rest := by
    rw [Storage.totalSize, hsizes, Storage.total_cons]
  rcases hcases with ⟨hfits, h⟩ | ⟨hfull, offset, storage, h⟩ <;> rw [h] at hok <;> cases hok
  · refine ⟨fun hroom => ⟨(hs.fits hroom).1, ?_⟩, hs.overflows⟩
    have hle := (hs.fits hroom).2
    simp only [Storage.totalSize, Storage.total_cons] at hle htotal ⊢
    omega
  · refine ⟨fun hroom => absurd hfull ?_, fun hroom => ?_⟩
    · have hle := (hs.fits hroom).2
      omega
    · obtain ⟨position, scopes, herrors, hscopes⟩ := hs.overflows hroom
      refine ⟨position, scopes ++ [⟨s.position, .size .scopeTooLarge⟩], by simp [herrors], ?_⟩
      exact List.forall_mem_append.mpr ⟨hscopes, List.forall_mem_singleton.mpr rfl⟩

theorem covers_dropScope : Covers n n dropScope := by
  refine Elementary.dropScope.covers fun s a t hs hok => ?_
  rcases dropScope_cases s with ⟨fault, h⟩ | ⟨inner, rest, hsizes, h⟩ <;> rw [h] at hok <;> cases hok
  refine ⟨fun hroom => ⟨(hs.fits hroom).1, ?_⟩, hs.overflows⟩
  have hle := (hs.fits hroom).2
  simp only [Storage.totalSize, hsizes, Storage.total_cons] at hle ⊢
  omega

theorem covers_openScope : Covers n n openScope := by
  refine Elementary.openScope.covers fun s a t hs hok => ?_
  cases hok
  refine ⟨fun hroom => ⟨(hs.fits hroom).1, ?_⟩, hs.overflows⟩
  have hle := (hs.fits hroom).2
  simp only [Storage.totalSize, Storage.openScope, Storage.total_cons] at hle ⊢
  omega

theorem covers_patch (address : Option Nat) : Covers n n (patch address) := by
  refine (Elementary.patch address).covers fun s a t hs hok => ?_
  cases address with
  | none =>
    cases hok
    exact hs
  | some address =>
    rcases patch_cases address s with ⟨fault, h⟩ | h <;> rw [h] at hok <;> cases hok
    refine ⟨fun hroom => ⟨(hs.fits hroom).1, ?_⟩, hs.overflows⟩
    simp only [Code.size, Code.retarget, Array.size_modify]
    exact (hs.fits hroom).2

theorem covers_visit (position : Position) : Covers n n (visit position) := by
  refine (Elementary.visit position).covers fun s a t hs hok => ?_
  cases hok
  exact ⟨hs.fits, hs.overflows⟩

theorem covers_define (id : NodeId) (entity : Entity) : Covers n n (define id entity) := by
  refine (Elementary.define id entity).covers fun s a t hs hok => ?_
  rcases define_cases id entity s with ⟨fault, h⟩ | h <;> rw [h] at hok <;> cases hok
  exact ⟨hs.fits, hs.overflows⟩

/-- Every step finds the instruction that its word of storage needs. -/
theorem Composed.covers {places : Position → Prop} {pending : List Nat} (h : Composed places pending n m x) :
    Covers n m x := by
  induction h with
  | emit i => exact covers_emit i
  | jump i _ ih => exact (covers_emit i).bind ih
  | patch address => exact covers_patch address
  | visit => exact covers_visit _
  | openScope => exact covers_openScope
  | dropScope => exact covers_dropScope
  | allocate hsize => exact covers_allocate hsize
  | define id entity => exact covers_define id entity
  | still hstill => exact .still fun s a t hok => hstill.eq_of_ok hok
  | fault f => exact fun _ _ _ _ hok => by cases hok
  | bind _ _ ihx ihg => exact ihx.bind ihg
  | fewer _ hle ih => exact ih.fewer hle

end Covers

end Generation

open Machine (Code)
open Generation

theorem Program.covers (p : Program) (cx : Context) : Covers 0 0 (p.generate cx) :=
  (p.composed_anywhere cx).covers

theorem Generation.covered_start (p : Program) {room : Code} : Covered 0 (.start p room) where
  fits _ := ⟨rfl, Nat.zero_le _⟩
  overflows h := by cases h

/-- A program is read, resolved and checked without an error. Then under every limit the generation of its
    code ends without a fault, and it has reported nothing; or it has reported that the program is too large,
    and after that at most that scopes are. In every state on the way there are only such reports. As long
    as each instruction has found room, there is none at all, and the scopes that are open take no more words
    than there are instructions. -/
theorem Program.generate_reports_code_first {tokens : List Token} {r : Parser.Result} {s : Resolution.State}
    {t : Typing.State} (hparse : Program.ofTokens tokens = .ok r) (hfindings : r.findings = [])
    (hresolve : r.program.resolve.finalState (.start r.program) = .ok s) (herrors : s.errors = #[])
    (hcheck : (r.program.check s.links).finalState (.start r.program) = .ok t) (htypes : t.errors = #[]) :
    ∀ limit ≤ Machine.Word.max, ∃ room u states, Code.withLimit limit = .ok room ∧
      (r.program.generate ⟨s.links, t.types⟩).finalState (.start r.program room) = .ok u ∧
      (u.errors = #[] ∨ Overflows u.errors.toList) ∧
      Visits (r.program.generate ⟨s.links, t.types⟩) (.start r.program room) states () u ∧
      ∀ v ∈ states, (v.errors = #[] ∨ Overflows v.errors.toList) ∧
        (v.overflowed = false → v.errors = #[] ∧ v.storage.totalSize ≤ v.code.size) := by
  intro limit hlimit
  have hroom : Code.withLimit limit = .ok ⟨#[], limit, Nat.zero_le _, hlimit⟩ := dif_pos hlimit
  obtain ⟨ds, hds, hrecords⟩ := Program.wellTyped_of_check hparse hfindings hresolve herrors hcheck htypes
  obtain ⟨u, hu, -⟩ := Program.generate_ends (Parser.counted_ofTokens hparse) hds hrecords
    (rfl : (⟨#[], limit, Nat.zero_le _, hlimit⟩ : Code).instructions = #[])
  obtain ⟨⟨⟩, hok⟩ := Pass.exists_of_finalState hu
  obtain ⟨states, hvisits, hstates, hcovered⟩ :=
    Program.covers r.program ⟨s.links, t.types⟩ _ _ _ (covered_start r.program) hok
  exact ⟨_, u, states, hroom, hu, hcovered.errors, hvisits, fun v hv =>
    ⟨(hstates v hv).errors, (hstates v hv).fits⟩⟩

/-- A scope of two words, of which only the first finds room in the code: the second is taken all the same,
    and nothing but the missing room for the code is reported. -/
theorem Program.generate_reports_code_first_scope :
    let source := "let const c ~ 1 + 2; var n : Integer in n := c"
    ∃ r s t room u states position, Program.ofTokens (Token.ofString source) = .ok r ∧ r.findings = [] ∧
      r.program.resolve.finalState (.start r.program) = .ok s ∧ s.errors = #[] ∧
      (r.program.check s.links).finalState (.start r.program) = .ok t ∧ t.errors = #[] ∧
      Code.withLimit 3 = .ok room ∧
      Visits (r.program.generate ⟨s.links, t.types⟩) (.start r.program room) states () u ∧
      (∀ v ∈ states, v.overflowed = false → v.errors = #[] ∧ v.storage.totalSize ≤ v.code.size) ∧
      u.errors = #[⟨position, .size .programTooLarge⟩] := by
  intro source
  have hrun : ((Program.ofTokens (Token.ofString source)).toOption.any fun r => r.findings.isEmpty &&
      (r.program.resolve.finalState (.start r.program)).toOption.any fun s => s.errors.isEmpty &&
        ((r.program.check s.links).finalState (.start r.program)).toOption.any fun t => t.errors.isEmpty &&
          (Code.withLimit 3).toOption.any fun room =>
            ((r.program.generate ⟨s.links, t.types⟩).finalState (.start r.program room)).toOption.any fun u =>
              decide (u.errors.size = 1)) = true := by
    decide +kernel
  simp only [Option.any_eq_true, Bool.and_eq_true, List.isEmpty_iff, Array.isEmpty_iff,
    decide_eq_true_eq] at hrun
  obtain ⟨r, hr, hf, s, hs, he, t, ht, hn, room, hroom, u, hu, hsize⟩ := hrun
  replace hr := eq_ok_of_toOption hr
  replace hs := eq_ok_of_toOption hs
  replace ht := eq_ok_of_toOption ht
  replace hroom := eq_ok_of_toOption hroom
  replace hu := eq_ok_of_toOption hu
  obtain ⟨room', u', states, hroom', hu', herrors, hvisits, hstates⟩ :=
    Program.generate_reports_code_first hr hf hs he ht hn 3 (by decide)
  cases hroom.symm.trans hroom'
  cases hu.symm.trans hu'
  rcases herrors with hnone | ⟨position, scopes, herrors, -⟩
  · simp [hnone] at hsize
  · have hnil : scopes = [] := by
      have hlength := congrArg List.length herrors
      rw [Array.length_toList, hsize] at hlength
      exact List.length_eq_zero_iff.mp (Nat.succ.inj hlength).symm
    subst hnil
    exact ⟨r, s, t, room, u, states, position, hr, hf, hs, he, ht, hn, hroom, hvisits,
      fun v hv => (hstates v hv).2, Array.toList_inj.mp herrors⟩

end TriangleCompiler
