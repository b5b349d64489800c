import Epos.Heap.Init
import Epos.Heap.Realloc
import Epos.Lib.Buffers
import Epos.Lib.Run

open bytes buffers runs

namespace epos.tlsf

/-- What the users of the pool do: calls, and writes to their buffers. -/
inductive Call where
  | malloc (size : UInt32)
  | calloc (nelem elem_size : UInt32)
  | free (ptr : UInt32)
  | realloc (ptr size : UInt32)
  | write (ptr : UInt32) (i : Nat) (byte : UInt8)

/-- A new buffer of `n` bytes, which overlaps no other one. -/
def Grants (s : Buffers) (n : Nat) (P : List UInt8 → Prop) (s' : Buffers) : Prop :=
  ∃ p bs, New s p n ∧ bs.length = n ∧ P bs ∧ s' = Function.update s p (some bs)

/-- What an allocator is for: what a call makes of the buffers. A request may be refused. -/
def Step (s : Buffers) : Call → Buffers → Prop
  | .malloc size, s' => s' = s ∨ Grants s size.toNat (fun _ => True) s'
  | .calloc nelem elem_size, s' =>
    s' = s ∨ Grants s (nelem.toNat * elem_size.toNat) (· = List.replicate (nelem.toNat * elem_size.toNat) 0) s'
  | .free ptr, s' => s' = Function.update s ptr.toNat none
  | .realloc ptr size, s' =>
    if size = 0 then s' = Function.update s ptr.toNat none
    else s' = s ∨ Grants (Function.update s ptr.toNat none) size.toNat
      (fun bs => ∀ old, s ptr.toNat = some old → bs.take old.length = old.take size.toNat) s'
  | .write ptr i byte, s' => ∃ bs, s ptr.toNat = some bs ∧ s' = Function.update s ptr.toNat (some (bs.set i byte))

/-- The pool, and the buffers in it as their users know them. -/
structure Users where
  pool : Pool
  buffers : Buffers

/-- The buffer that a call returns, with what is found in it. -/
def granted (s : Buffers) (ret : UInt32) (mem : ByteMem) (n : Nat) : Buffers :=
  if ret = NULL then s else Function.update s ret.toNat (some (contents mem ret.toNat n))

def perform (u : Users) : Call → Users
  | .malloc size =>
    let (ret, pool) := tlsf_malloc u.pool size
    { pool := pool, buffers := granted u.buffers ret pool.mem size.toNat }
  | .calloc nelem elem_size =>
    let (ret, pool) := tlsf_calloc u.pool nelem elem_size
    { pool := pool, buffers := granted u.buffers ret pool.mem (nelem.toNat * elem_size.toNat) }
  | .free ptr => { pool := tlsf_free u.pool ptr, buffers := Function.update u.buffers ptr.toNat none }
  | .realloc ptr size =>
    let (ret, pool) := tlsf_realloc u.pool ptr size
    { pool := pool,
      buffers :=
        if size = 0 then Function.update u.buffers ptr.toNat none
        else if ret = NULL then u.buffers
        else granted (Function.update u.buffers ptr.toNat none) ret pool.mem size.toNat }
  | .write ptr i byte =>
    { pool := { u.pool with mem := store8 u.pool.mem (ptr + UInt32.ofNat i) byte },
      buffers := Function.update u.buffers ptr.toNat ((u.buffers ptr.toNat).map (·.set i byte)) }

/-- Users ask for no more than can be rounded up, pass pointers to their buffers, and write to these. -/
def enabled (u : Users) : Call → Prop
  | .malloc size => size.toNat ≤ 0xFC000000
  | .calloc nelem elem_size => nelem.toNat * elem_size.toNat ≤ 0xFC000000
  | .free ptr => ptr ≠ NULL → u.buffers ptr.toNat ≠ none
  | .realloc ptr size => (ptr ≠ NULL → u.buffers ptr.toNat ≠ none) ∧ size.toNat ≤ 0xFC000000
  | .write ptr i _ => ∃ bs, u.buffers ptr.toNat = some bs ∧ i < bs.length

/-- Each block of `U` has one of the buffers, and each buffer is in a block. -/
structure Owned (U : Block → Prop) (s : Buffers) : Prop where
  owner : ∀ p bs, s p = some bs → ∃ b, U b ∧ b.addr + 8 = p ∧ bs.length ≤ b.size
  buffer : ∀ b, U b → s (b.addr + 8) ≠ none

/-- The pool is as its users know it, and nothing else has been written. -/
structure Agrees (start : ByteMem) (t fin : Nat) (u : Users) : Prop where
  mp : u.pool.mp = UInt32.ofNat t
  heap : ∃ blocks, Heap u.pool.mem t fin blocks ∧ Owned (· ∈ used blocks) u.buffers
  holds : Holds u.pool.mem u.buffers
  outside : Outside start u.pool.mem t fin

section Owned

variable {U : Block → Prop} {s : Buffers} {mem mem' : ByteMem} {t fin a n z : Nat} {bs : List UInt8} {blocks blocks' : List Block}

theorem Owned.erase (howned : Owned U s) (a : Nat) :
    Owned (fun b => U b ∧ b.addr ≠ a) (Function.update s (a + 8) none) := by
  constructor
  · intro p bs hp
    by_cases hpa : p = a + 8
    · rw [hpa, Function.update_self] at hp
      cases hp
    · rw [Function.update_of_ne hpa] at hp
      obtain ⟨b, hb, haddr, hsize⟩ := howned.owner p bs hp
      exact ⟨b, ⟨hb, by omega⟩, haddr, hsize⟩
  · rintro b ⟨hb, hne⟩
    rw [Function.update_of_ne (by omega)]
    exact howned.buffer b hb

/-- The buffer of a new block. -/
theorem Owned.insert (howned : Owned U s) (hheap : Heap mem t fin blocks)
    (hused : ∀ b, b ∈ used blocks ↔ b = ⟨a, z, false⟩ ∨ U b) (hfresh : ∀ b, U b → b.addr ≠ a) (hn : bs.length ≤ z) :
    Owned (· ∈ used blocks) (Function.update s (a + 8) (some bs)) ∧ New s (a + 8) bs.length := by
  have hmem : (⟨a, z, false⟩ : Block) ∈ blocks := (mem_used.mp ((hused _).mpr (Or.inl rfl))).1
  have hroom := hheap.bounds hmem
  refine ⟨⟨fun p cs hp => ?_, fun b hb => ?_⟩, by omega, ?_, fun q cs hq => ?_⟩
  · by_cases hpa : p = a + 8
    · rw [hpa, Function.update_self] at hp
      obtain rfl := Option.some.inj hp
      exact ⟨_, (hused _).mpr (Or.inl rfl), hpa.symm, hn⟩
    · rw [Function.update_of_ne hpa] at hp
      obtain ⟨b, hb, haddr, hsize⟩ := howned.owner p cs hp
      exact ⟨b, (hused b).mpr (Or.inr hb), haddr, hsize⟩
  · obtain rfl | hb := (hused b).mp hb
    · rw [Function.update_self]
      exact Option.some_ne_none bs
    · have := hfresh b hb
      rw [Function.update_of_ne (by omega)]
      exact howned.buffer b hb
  · refine Option.eq_none_iff_forall_ne_some.mpr fun cs hcs => ?_
    obtain ⟨b, hb, haddr, -⟩ := howned.owner _ _ hcs
    exact hfresh b hb (by omega)
  · obtain ⟨b, hb, rfl, hsize⟩ := howned.owner q cs hq
    have hbmem := (mem_used.mp ((hused b).mpr (Or.inr hb))).1
    have hroom' := hheap.bounds hbmem
    have := hheap.apart hbmem hmem (hfresh b hb)
    simp only [Block.stop] at this hroom hroom'
    omega

/-- Buffers whose blocks are left alone keep their contents. -/
theorem Owned.holds (howned : Owned U s) (hholds : Holds mem s)
    (hsame : ∀ b, U b → ∀ y < 2 ^ 32, b.addr + 8 ≤ y → y < b.stop → byte mem' y = byte mem y) : Holds mem' s := by
  refine hholds.congr fun p bs hp i hi => ?_
  obtain ⟨b, hb, rfl, hsize⟩ := howned.owner p bs hp
  have hfits := (hholds _ bs hp).1
  exact hsame b hb _ (by omega) (by omega) (by unfold Block.stop; omega)

/-- No buffer is at `NULL`. -/
theorem Owned.null (howned : Owned U s) : s 0 = none := by
  refine Option.eq_none_iff_forall_ne_some.mpr fun bs hbs => ?_
  obtain ⟨b, -, haddr, -⟩ := howned.owner 0 bs hbs
  omega

theorem Owned.update_null (howned : Owned U s) : Function.update s 0 none = s :=
  Function.update_eq_self_iff.mpr howned.null.symm

/-- A buffer with other contents, which are as long. -/
theorem Owned.write {p : Nat} {cs : List UInt8} (howned : Owned U s) (hp : s p = some bs) (hlength : cs.length = bs.length) :
    Owned U (Function.update s p (some cs)) := by
  constructor
  · intro q ds hq
    by_cases hqp : q = p
    · rw [hqp, Function.update_self] at hq
      obtain rfl := Option.some.inj hq
      rw [hqp, hlength]
      exact howned.owner p bs hp
    · rw [Function.update_of_ne hqp] at hq
      exact howned.owner q ds hq
  · intro b hb
    by_cases hbp : b.addr + 8 = p
    · rw [hbp, Function.update_self]
      exact Option.some_ne_none cs
    · rw [Function.update_of_ne hbp]
      exact howned.buffer b hb

theorem Owned.apart (howned : Owned (· ∈ used blocks) s) (hheap : Heap mem t fin blocks) : Apart s := by
  intro p q bs cs hp hq hne
  obtain ⟨b, hb, rfl, hsize⟩ := howned.owner p bs hp
  obtain ⟨c, hc, rfl, hsize'⟩ := howned.owner q cs hq
  have := hheap.apart (mem_used.mp hb).1 (mem_used.mp hc).1 (by omega)
  simp only [Block.stop] at this
  omega

/-- The block of a buffer that a user has a pointer to. -/
theorem Owned.block {ptr : UInt32} (howned : Owned (· ∈ used blocks) s)
    (hp : s ptr.toNat = some bs) :
    ∃ a z, ⟨a, z, false⟩ ∈ blocks ∧ ptr = UInt32.ofNat (a + 8) ∧ ptr.toNat = a + 8 ∧ bs.length ≤ z := by
  obtain ⟨⟨a, z, f⟩, hb, haddr, hsize⟩ := howned.owner _ _ hp
  obtain ⟨hmem, rfl⟩ := mem_used.mp hb
  exact ⟨a, z, hmem, by rw [haddr, UInt32.ofNat_toNat], haddr.symm, hsize⟩

end Owned

section Calls

variable {s : Buffers} {start mem mem' : ByteMem} {t fin a n z : Nat} {ret size : UInt32} {blocks blocks' : List Block} {u : Users}

/-- A call that returns a new block. -/
theorem Agrees.grant {U : Block → Prop} (howned : Owned U s) (hholds : Holds mem' s) (houtside : Outside start mem' t fin)
    (hheap : Heap mem' t fin blocks)
    (hused : ∀ b, b ∈ used blocks ↔ b = ⟨a, z, false⟩ ∨ U b) (hfresh : ∀ b, U b → b.addr ≠ a) (hn : n ≤ z) :
    UInt32.ofNat (a + 8) ≠ NULL ∧ (UInt32.ofNat (a + 8)).toNat = a + 8 ∧ New s (a + 8) n ∧
      Agrees start t fin
        { pool := { mem := mem', mp := UInt32.ofNat t },
          buffers := Function.update s (a + 8) (some (contents mem' (a + 8) n)) } := by
  have hmem : (⟨a, z, false⟩ : Block) ∈ blocks := (mem_used.mp ((hused _).mpr (Or.inl rfl))).1
  have hroom := hheap.bounds hmem
  have hbound := hheap.bound
  simp only [Block.stop] at hroom
  have hlength := contents_length mem' (a + 8) n
  have hfits : (contents mem' (a + 8) n).length ≤ z := hlength.symm ▸ hn
  obtain ⟨howned', hnew⟩ := howned.insert hheap hused hfresh hfits
  rw [hlength] at hnew
  refine ⟨(ofNat_ne_zero_iff (by omega)).mpr (by omega), ?_, hnew, rfl, ⟨blocks, hheap, howned'⟩, hholds.insert (by omega), houtside⟩
  rw [UInt32.toNat_ofNat']
  omega

theorem used_guarded {b : Block} (hb : b ∈ used blocks) {y : Nat} (hlo : b.addr + 8 ≤ y) (hhi : y < b.stop) :
    Guarded t fin blocks y := by
  obtain ⟨hmem, hfree⟩ := mem_used.mp hb
  exact Or.inr (Or.inr ⟨b, hmem, hfree, hlo, hhi⟩)

theorem outside_guarded {y : Nat} (hout : y < t ∨ fin + 8 ≤ y) : Guarded t fin blocks y := hout.imp_right Or.inl

theorem Outside.step (houtside : Outside start mem t fin)
    (hsame : ∀ y < 2 ^ 32, y < t ∨ fin + 8 ≤ y → byte mem' y = byte mem y) : Outside start mem' t fin :=
  fun y hy hout => (hsame y hy hout).trans (houtside y hy hout)

theorem malloc_step (hagrees : Agrees start t fin u) (hsize : size.toNat ≤ 0xFC000000) :
    Agrees start t fin (perform u (.malloc size)) ∧ Step u.buffers (.malloc size) (perform u (.malloc size)).buffers := by
  obtain ⟨hmp, ⟨blocks, hheap, howned⟩, hholds, houtside⟩ := hagrees
  have hcode : perform u (.malloc size) =
      { pool := { mem := (malloc_ex u.pool.mem size u.pool.mp).2, mp := u.pool.mp },
        buffers := granted u.buffers (malloc_ex u.pool.mem size u.pool.mp).1 (malloc_ex u.pool.mem size u.pool.mp).2 size.toNat } := rfl
  rw [hcode, hmp]
  obtain ⟨hnull, hsame, -⟩ | ⟨a, z, blocks', hresult, hz, hheap', hused, hfresh, hsame⟩ := malloc_used hheap hsize
  · rw [hnull, hsame, granted, if_pos rfl]
    exact ⟨⟨rfl, ⟨blocks, hheap, howned⟩, hholds, houtside⟩, Or.inl rfl⟩
  · have hrequest := (request_bounds hsize).1
    have hholds' := howned.holds hholds fun b hb y hy hlo hhi => hsame y hy (used_guarded hb hlo hhi)
    have houtside' := houtside.step fun y hy hout => hsame y hy (outside_guarded hout)
    obtain ⟨hne, hnat, hnew, hagrees'⟩ := Agrees.grant (n := size.toNat) howned hholds' houtside' hheap' hused hfresh (by omega)
    rw [hresult, granted, if_neg hne, hnat]
    exact ⟨hagrees', Or.inr ⟨a + 8, _, hnew, contents_length .., trivial, rfl⟩⟩

theorem calloc_step {nelem elem_size : UInt32} (hagrees : Agrees start t fin u)
    (hsize : nelem.toNat * elem_size.toNat ≤ 0xFC000000) :
    Agrees start t fin (perform u (.calloc nelem elem_size)) ∧
      Step u.buffers (.calloc nelem elem_size) (perform u (.calloc nelem elem_size)).buffers := by
  obtain ⟨hmp, ⟨blocks, hheap, howned⟩, hholds, houtside⟩ := hagrees
  have hnat : (nelem * elem_size).toNat = nelem.toNat * elem_size.toNat := by
    rw [UInt32.toNat_mul]
    omega
  have hcode : perform u (.calloc nelem elem_size) =
      { pool := { mem := (calloc_ex u.pool.mem nelem elem_size u.pool.mp).2, mp := u.pool.mp },
        buffers := granted u.buffers (calloc_ex u.pool.mem nelem elem_size u.pool.mp).1
          (calloc_ex u.pool.mem nelem elem_size u.pool.mp).2 (nelem.toNat * elem_size.toNat) } := rfl
  rw [hcode, hmp]
  rw [← hnat] at hsize ⊢
  obtain ⟨hnull, hsame⟩ | ⟨a, z, blocks', hresult, hz, hheap', hused, hfresh, hzero, hsame⟩ := calloc_used hheap hsize
  · rw [hnull, hsame, granted, if_pos rfl]
    exact ⟨⟨rfl, ⟨blocks, hheap, howned⟩, hholds, houtside⟩, Or.inl rfl⟩
  · have hrequest := (request_bounds hsize).1
    have hholds' := howned.holds hholds fun b hb y hy hlo hhi => hsame y hy (used_guarded hb hlo hhi)
    have houtside' := houtside.step fun y hy hout => hsame y hy (outside_guarded hout)
    obtain ⟨hne, hptr, hnew, hagrees'⟩ :=
      Agrees.grant (n := (nelem * elem_size).toNat) howned hholds' houtside' hheap' hused hfresh (by omega)
    have hcontents : contents (calloc_ex u.pool.mem nelem elem_size (UInt32.ofNat t)).2 (a + 8) (nelem * elem_size).toNat =
        List.replicate (nelem * elem_size).toNat 0 := by
      refine List.eq_replicate_iff.mpr ⟨contents_length .., fun v hv => ?_⟩
      obtain ⟨i, hi, rfl⟩ := List.mem_map.mp hv
      exact hzero i (List.mem_range.mp hi)
    rw [hresult, granted, if_neg hne, hptr]
    refine ⟨hagrees', Or.inr ⟨a + 8, _, ?_, ?_, ?_, rfl⟩⟩
    · exact hnat ▸ hnew
    · exact hnat ▸ contents_length ..
    · exact hnat ▸ hcontents

theorem free_step {ptr : UInt32} (hagrees : Agrees start t fin u) (hlive : ptr ≠ NULL → u.buffers ptr.toNat ≠ none) :
    Agrees start t fin (perform u (.free ptr)) ∧ Step u.buffers (.free ptr) (perform u (.free ptr)).buffers := by
  obtain ⟨hmp, ⟨blocks, hheap, howned⟩, hholds, houtside⟩ := hagrees
  refine ⟨?_, rfl⟩
  have hcode : perform u (.free ptr) =
      { pool := { mem := free_ex u.pool.mem ptr u.pool.mp, mp := u.pool.mp },
        buffers := Function.update u.buffers ptr.toNat none } := rfl
  rw [hcode, hmp]
  by_cases hnull : ptr = NULL
  · rw [hnull, free_ex, if_pos rfl]
    exact ⟨rfl, ⟨blocks, hheap, howned.update_null.symm ▸ howned⟩, hholds.erase _, houtside⟩
  · obtain ⟨bs, hbs⟩ := Option.ne_none_iff_exists'.mp (hlive hnull)
    obtain ⟨a, z, hmem, hptr, hnat, -⟩ := howned.block hbs
    rw [hnat, hptr]
    obtain ⟨blocks', hheap', hused, hsame⟩ := free_used hheap hmem
    have howned' := howned.erase a
    have hroom := hheap.bounds hmem
    simp only [Block.stop] at hroom
    refine ⟨rfl, ⟨blocks', hheap', ?_⟩, howned'.holds (hholds.erase _) fun b hb y hy hlo hhi => ?_,
      houtside.step fun y hy hout => hsame y hy (outside_guarded hout) fun hin => ?_⟩
    · simpa only [hused] using howned'
    · refine hsame y hy (used_guarded hb.1 hlo hhi) fun hin => ?_
      have := hheap.apart (mem_used.mp hb.1).1 hmem hb.2
      simp only [Block.stop, Range] at this hin hhi
      omega
    · unfold Range at hin
      omega

theorem write_step {ptr : UInt32} {i : Nat} {v : UInt8} {bs : List UInt8} (hagrees : Agrees start t fin u)
    (hp : u.buffers ptr.toNat = some bs) (hi : i < bs.length) :
    Agrees start t fin (perform u (.write ptr i v)) ∧ Step u.buffers (.write ptr i v) (perform u (.write ptr i v)).buffers := by
  obtain ⟨hmp, ⟨blocks, hheap, howned⟩, hholds, houtside⟩ := hagrees
  obtain ⟨a, z, hmem, hptr, hnat, hsize⟩ := howned.block hp
  have hroom := hheap.bounds hmem
  have hbound := hheap.bound
  simp only [Block.stop] at hroom
  have haddr : ptr + UInt32.ofNat i = UInt32.ofNat (a + 8 + i) := by rw [hptr, ← UInt32.ofNat_add]
  have hbuffers : (perform u (.write ptr i v)).buffers = Function.update u.buffers (a + 8) (some (bs.set i v)) := by
    rw [perform, hp, hnat, Option.map_some]
  have hcode : perform u (.write ptr i v) =
      { pool := { mem := store8 u.pool.mem (UInt32.ofNat (a + 8 + i)) v, mp := u.pool.mp },
        buffers := Function.update u.buffers (a + 8) (some (bs.set i v)) } := by
    rw [← hbuffers, ← haddr]
    rfl
  rw [hcode]
  rw [hnat] at hp
  have hstored : Touches (Range (a + 8 + i) 1) u.pool.mem (store8 u.pool.mem (UInt32.ofNat (a + 8 + i)) v) := fun y hy hout => by
    rw [byte_store8 _ _ (by omega) hy, if_neg]
    unfold Range at hout
    omega
  refine ⟨⟨hmp, ⟨blocks, ?_, ?_⟩, hholds.write (howned.apart hheap) hp hi v, houtside.step fun y hy hout => ?_⟩, bs, hnat ▸ hp, ?_⟩
  · exact hheap.congr (hstored.mono fun y hy => Or.inl (Or.inr (Or.inr ⟨_, hmem, rfl, by have := hy.1; simp only; omega, by
      have := hy.2
      simp only [Block.stop]
      omega⟩)))
  · exact howned.write hp (List.length_set ..)
  · refine hstored y hy fun hin => ?_
    unfold Range at hin
    omega
  · rw [hnat]

/-- `realloc` of no bytes frees the block. -/
theorem perform_realloc_zero (u : Users) (ptr : UInt32) : perform u (.realloc ptr 0) = perform u (.free ptr) := by
  have hpool : (tlsf_realloc u.pool ptr 0).2 = tlsf_free u.pool ptr := by
    unfold tlsf_realloc tlsf_free realloc_ex free_ex
    by_cases hnull : ptr = NULL
    · simp only [if_pos hnull, ne_eq, not_true_eq_false, if_false]
    · simp only [if_neg hnull, if_true]
  simp only [perform, hpool, if_true]

/-- `realloc` without a block asks for one. -/
theorem perform_realloc_null (hnone : u.buffers 0 = none) (hsize : size ≠ 0) :
    perform u (.realloc NULL size) = perform u (.malloc size) := by
  have hpool : tlsf_realloc u.pool NULL size = tlsf_malloc u.pool size := by
    unfold tlsf_realloc tlsf_malloc realloc_ex
    rw [if_pos rfl, if_pos hsize]
  have hnull : NULL.toNat = 0 := rfl
  have hsame : Function.update u.buffers 0 none = u.buffers := Function.update_eq_self_iff.mpr hnone.symm
  simp only [perform, hpool, hnull, hsame, if_neg hsize, granted]
  congr 1
  split <;> rfl

theorem realloc_step {ptr : UInt32} (hagrees : Agrees start t fin u) (hlive : ptr ≠ NULL → u.buffers ptr.toNat ≠ none)
    (hsize : size.toNat ≤ 0xFC000000) :
    Agrees start t fin (perform u (.realloc ptr size)) ∧
      Step u.buffers (.realloc ptr size) (perform u (.realloc ptr size)).buffers := by
  by_cases hzero : size = 0
  · obtain ⟨hagrees', hstep⟩ := free_step hagrees hlive
    rw [hzero, perform_realloc_zero]
    refine ⟨hagrees', ?_⟩
    rw [Step, if_pos rfl]
    exact hstep
  by_cases hnull : ptr = NULL
  · have hnone : u.buffers 0 = none := by
      obtain ⟨-, ⟨blocks, -, howned⟩, -, -⟩ := hagrees
      exact howned.null
    have hzeroth : NULL.toNat = 0 := rfl
    have hsame : Function.update u.buffers 0 none = u.buffers := Function.update_eq_self_iff.mpr hnone.symm
    obtain ⟨hagrees', hstep⟩ := malloc_step hagrees hsize
    rw [hnull, perform_realloc_null hnone hzero, Step, if_neg hzero, hzeroth, hsame]
    refine ⟨hagrees', hstep.imp_right ?_⟩
    rintro ⟨p, bs, hnew, hlength, -, hs'⟩
    exact ⟨p, bs, hnew, hlength, fun old hold => (Option.some_ne_none old (hold.symm.trans hnone)).elim, hs'⟩
  obtain ⟨hmp, ⟨blocks, hheap, howned⟩, hholds, houtside⟩ := hagrees
  obtain ⟨bs, hbs⟩ := Option.ne_none_iff_exists'.mp (hlive hnull)
  obtain ⟨a, z, hmem, hptr, hnat, hlength⟩ := howned.block hbs
  have hcode : perform u (.realloc ptr size) =
      { pool := { mem := (realloc_ex u.pool.mem ptr size u.pool.mp).2, mp := u.pool.mp },
        buffers :=
          if size = 0 then Function.update u.buffers ptr.toNat none
          else if (realloc_ex u.pool.mem ptr size u.pool.mp).1 = NULL then u.buffers
          else granted (Function.update u.buffers ptr.toNat none) (realloc_ex u.pool.mem ptr size u.pool.mp).1
            (realloc_ex u.pool.mem ptr size u.pool.mp).2 size.toNat } := rfl
  rw [Step, if_neg hzero, hcode, if_neg hzero, hmp, hnat, hptr]
  rw [hnat] at hbs
  have hrequest := (request_bounds hsize).1
  obtain ⟨hrefused, hsame, -⟩ | ⟨a', hresult, ⟨⟨z', blocks', hz, hheap', hused⟩, hfresh, hcontent, hsame⟩, -⟩ :=
    realloc_used hheap hmem hzero hsize
  · rw [if_pos hrefused, hsame]
    exact ⟨⟨rfl, ⟨blocks, hheap, howned⟩, hholds, houtside⟩, Or.inl rfl⟩
  · have hroom := hheap.bounds hmem
    simp only [Block.stop] at hroom
    have houtside' := houtside.step fun y hy hout => hsame y hy (outside_guarded hout) fun hin => by
      unfold Range at hin
      omega
    have hholds' := (howned.erase a).holds (hholds.erase _) fun b hb y hy hlo hhi =>
      hsame y hy (used_guarded hb.1 hlo hhi) fun hin => by
        have := hheap.apart (mem_used.mp hb.1).1 hmem hb.2
        simp only [Block.stop, Range] at this hin hhi
        omega
    obtain ⟨hne, hptr', hnew, hagrees'⟩ := Agrees.grant (n := size.toNat) (howned.erase a) hholds' houtside' hheap' hused
      (fun b hb => hfresh b hb.1 hb.2) (by omega)
    rw [hresult, if_neg hne, granted, if_neg hne, hptr']
    refine ⟨hagrees', Or.inr ⟨a' + 8, _, hnew, contents_length .., fun old hold => ?_, rfl⟩⟩
    rw [hbs] at hold
    obtain rfl := Option.some.inj hold
    have hmin := Nat.min_comm bs.length size.toNat
    have hcontents := (hholds _ bs hbs).2
    rw [contents_take, ← hcontents, contents_length, contents_take, hmin]
    exact contents_congr fun i hi => hcontent i (by omega) (by omega)

/-- A buffer that is cut stays where it is. -/
theorem Agrees.cut {ptr : UInt32} {bs : List UInt8} (hagrees : Agrees start t fin u) (hp : u.buffers ptr.toNat = some bs)
    (hne : size ≠ 0) (hsize : size.toNat ≤ 0xFC000000) (hle : (request size).toNat ≤ bs.length) :
    (perform u (.realloc ptr size)).buffers =
      Function.update u.buffers ptr.toNat (some (contents (tlsf_realloc u.pool ptr size).2.mem ptr.toNat size.toNat)) := by
  obtain ⟨hmp, ⟨blocks, hheap, howned⟩, -, -⟩ := hagrees
  obtain ⟨a, z, hmem, hptr, hnat, hlength⟩ := howned.block hp
  have hbuffer := hheap.buffer_ne_null hmem
  have hstay : ¬ Stuck blocks a z (request size).toNat := fun h => by
    have hlt := h.1
    omega
  have hret : (tlsf_realloc u.pool ptr size).1 = ptr := by
    have hcode : (tlsf_realloc u.pool ptr size).1 = (realloc_ex u.pool.mem ptr size u.pool.mp).1 := rfl
    rw [hcode, hmp, hptr]
    obtain ⟨-, -, hstuck, -⟩ | ⟨a', hresult, -, hmoved⟩ := realloc_used hheap hmem hne hsize
    · exact absurd hstuck hstay
    · rw [hresult, hmoved.resolve_right hstay]
  have hnull : ptr ≠ NULL := hptr ▸ hbuffer
  simp only [perform, granted, hret, if_neg hne, if_neg hnull, Function.update_idem]

theorem perform_step {call : Call} (hagrees : Agrees start t fin u) (henabled : enabled u call) :
    Agrees start t fin (perform u call) ∧ Step u.buffers call (perform u call).buffers := by
  cases call with
  | malloc size => exact malloc_step hagrees henabled
  | calloc nelem elem_size => exact calloc_step hagrees henabled
  | free ptr => exact free_step hagrees henabled
  | realloc ptr size => exact realloc_step hagrees henabled.1 henabled.2
  | write ptr i byte =>
    obtain ⟨bs, hp, hi⟩ := henabled
    exact write_step hagrees hp hi

end Calls

section Runs

/-- A new pool, of which nobody has a buffer. -/
def started (s : Pool) (t n : Nat) : Users :=
  { pool := new_pool s t n, buffers := fun _ => none }

variable {s : Pool} {t n : Nat} {calls : List Call} {u : Users}

theorem Region.agrees (hregion : Region s.mem t n) : Agrees s.mem t (pool_end t n) (started s t n) := by
  refine ⟨hregion.mp, ⟨_, hregion.heap, ?_⟩, (fun p bs hp => nomatch hp), hregion.outside⟩
  exact ⟨(fun p bs hp => nomatch hp), fun b hb => nomatch hb⟩

/-- A run of calls keeps the pool and what its users know of it in agreement. -/
theorem Region.exec (hregion : Region s.mem t n) (hcalls : AllSteps perform enabled (started s t n) calls) :
    Agrees s.mem t (pool_end t n) (exec perform (started s t n) calls) :=
  exec_invariant (Agrees s.mem t (pool_end t n)) (fun _ _ hagrees henabled => (perform_step hagrees henabled).1) hregion.agrees hcalls

/-- To its users the pool is an allocator. -/
theorem calls_refine (hregion : Region s.mem t n) (hcalls : AllSteps perform enabled (started s t n) calls) :
    AllSteps perform (fun u call => Step u.buffers call (perform u call).buffers) (started s t n) calls :=
  AllSteps.of_invariant (Agrees s.mem t (pool_end t n)) (fun _ _ hagrees henabled => (perform_step hagrees henabled).1)
    (fun _ _ hagrees henabled => (perform_step hagrees henabled).2) hregion.agrees hcalls

theorem exec_two (u : Users) (call call' : Call) : exec perform u [call, call'] = perform (perform u call) call' := rfl

theorem tlsf_malloc_eq (s : Pool) (size : UInt32) :
    tlsf_malloc s size = ((malloc_ex s.mem size s.mp).1, { s with mem := (malloc_ex s.mem size s.mp).2 }) := rfl

theorem tlsf_calloc_ret (s : Pool) (nelem elem_size : UInt32) :
    (tlsf_calloc s nelem elem_size).1 = (calloc_ex s.mem nelem elem_size s.mp).1 := rfl

theorem perform_malloc (u : Users) (size : UInt32) :
    perform u (.malloc size) =
      { pool := (tlsf_malloc u.pool size).2,
        buffers := granted u.buffers (tlsf_malloc u.pool size).1 (tlsf_malloc u.pool size).2.mem size.toNat } := rfl

theorem perform_calloc (u : Users) (nelem elem_size : UInt32) :
    perform u (.calloc nelem elem_size) =
      { pool := (tlsf_calloc u.pool nelem elem_size).2,
        buffers := granted u.buffers (tlsf_calloc u.pool nelem elem_size).1 (tlsf_calloc u.pool nelem elem_size).2.mem
          (nelem.toNat * elem_size.toNat) } := rfl

theorem perform_free (u : Users) (ptr : UInt32) :
    (perform u (.free ptr)).buffers = Function.update u.buffers ptr.toNat none := rfl

/-- One of two buffers is written to and cut, then both are freed. -/
theorem Agrees.cut_and_free {start : ByteMem} {fin : Nat} {p q : UInt32} {bs cs : List UInt8} (hagrees : Agrees start t fin u)
    (hbuffers : u.buffers = Function.update (Function.update (fun _ => none) p.toNat (some bs)) q.toNat (some cs))
    (hne : q.toNat ≠ p.toNat) (hlength : bs.length = 100) :
    AllSteps perform enabled u [.write p 5 0x41, .realloc p 40, .free q, .free p] ∧
      ∀ x, (exec perform u [.write p 5 0x41, .realloc p 40, .free q, .free p]).buffers x = none := by
  have hp : u.buffers p.toNat = some bs := by rw [hbuffers, Function.update_of_ne hne.symm, Function.update_self]
  have hwrite : enabled u (.write p 5 0x41) := ⟨bs, hp, by omega⟩
  have hwritten : (perform u (.write p 5 0x41)).buffers = Function.update u.buffers p.toNat (some (bs.set 5 0x41)) := by
    rw [perform, hp, Option.map_some]
  obtain ⟨hagrees', -⟩ := perform_step hagrees hwrite
  obtain ⟨u₁, hu₁⟩ : ∃ u₁, perform u (.write p 5 0x41) = u₁ := ⟨_, rfl⟩
  rw [hu₁] at hwritten hagrees'
  have hp₁ : u₁.buffers p.toNat = some (bs.set 5 0x41) := by rw [hwritten, Function.update_self]
  have hshort : (request 40).toNat ≤ (bs.set 5 0x41).length := by
    rw [List.length_set, hlength]
    decide
  have hcut := hagrees'.cut hp₁ (by decide) (by decide) hshort
  obtain ⟨u₂, hu₂⟩ : ∃ u₂, perform u₁ (.realloc p 40) = u₂ := ⟨_, rfl⟩
  rw [hu₂] at hcut
  have hq₂ : u₂.buffers q.toNat = some cs := by
    rw [hcut, Function.update_of_ne hne, hwritten, Function.update_of_ne hne, hbuffers, Function.update_self]
  obtain ⟨u₃, hu₃⟩ : ∃ u₃, perform u₂ (.free q) = u₃ := ⟨_, rfl⟩
  have hfreed : u₃.buffers = Function.update u₂.buffers q.toNat none := hu₃ ▸ perform_free u₂ q
  have hp₃ : u₃.buffers p.toNat ≠ none := by
    rw [hfreed, Function.update_of_ne hne.symm, hcut, Function.update_self]
    exact Option.some_ne_none _
  constructor
  · refine ⟨hwrite, ?_⟩
    rw [hu₁]
    refine ⟨⟨fun _ => hp₁ ▸ Option.some_ne_none _, (by decide : (40 : UInt32).toNat ≤ 0xFC000000)⟩, ?_⟩
    rw [hu₂]
    refine ⟨fun _ => hq₂ ▸ Option.some_ne_none _, ?_⟩
    rw [hu₃]
    exact ⟨fun _ => hp₃, trivial⟩
  · intro x
    have hend : exec perform u [.write p 5 0x41, .realloc p 40, .free q, .free p] = perform u₃ (.free p) := by
      rw [← hu₃, ← hu₂, ← hu₁]
      rfl
    rw [hend, perform_free, hfreed, hcut, hwritten, hbuffers]
    by_cases hx : x = p.toNat
    · rw [hx, Function.update_self]
    · rw [Function.update_of_ne hx]
      by_cases hx' : x = q.toNat
      · rw [hx', Function.update_self]
      · simp only [Function.update_of_ne hx, Function.update_of_ne hx']

/-- 64 KiB, of which the first 100 bytes are taken. -/
def one_buffer : Users := perform (started cleared 0x100000 0x10000) (.malloc 100)

/-- The pointers of the two buffers. -/
def first_ptr : UInt32 := UInt32.ofNat 0x100C88
def second_ptr : UInt32 := (tlsf_calloc one_buffer.pool 3 4).1

/-- Two buffers at a time; the first one is written to and cut. -/
def two_buffers : List Call :=
  [.malloc 100, .calloc 3 4, .write first_ptr 5 0x41, .realloc first_ptr 40, .free second_ptr, .free first_ptr]

theorem perform_first {size : UInt32} (hmp : s.mp = UInt32.ofNat t)
    (hret : (malloc_ex s.mem size (UInt32.ofNat t)).1 = first_ptr) :
    ∃ bs u, perform { pool := s, buffers := fun _ => none } (.malloc size) = u ∧ bs.length = size.toNat ∧
      u.buffers = Function.update (fun _ => none) first_ptr.toNat (some bs) ∧ u.pool.mp = UInt32.ofNat t ∧
      u.pool.mem = (malloc_ex s.mem size (UInt32.ofNat t)).2 := by
  have hnull : first_ptr ≠ NULL := by decide
  refine ⟨_, _, rfl, contents_length (malloc_ex s.mem size (UInt32.ofNat t)).2 first_ptr.toNat size.toNat, ?_⟩
  rw [perform_malloc, tlsf_malloc_eq]
  simp only [hmp, hret, granted, if_neg hnull, and_self]

theorem one_buffer_heap : ∃ bs z blocks, bs.length = 100 ∧
    one_buffer.buffers = Function.update (fun _ => none) first_ptr.toNat (some bs) ∧
    one_buffer.pool.mp = UInt32.ofNat 0x100000 ∧ z < 120 ∧
    Heap one_buffer.pool.mem 0x100000 (pool_end 0x100000 0x10000) blocks ∧ ∀ b, b ∈ used blocks ↔ b = ⟨0x100C80, z, false⟩ := by
  obtain ⟨z, blocks, hresult, -, hz, hheap, hused⟩ := cleared_granted
  obtain ⟨bs, u, hone, hbs, hbuffers, hmp, hmem⟩ := perform_first cleared_region.mp hresult
  rw [one_buffer, started, hone]
  exact ⟨bs, z, blocks, hbs, hbuffers, hmp, hz, hmem ▸ hheap, hused⟩

theorem second_ptr_granted : second_ptr ≠ NULL ∧ second_ptr.toNat ≠ first_ptr.toNat := by
  obtain ⟨-, z, blocks, -, -, hmp, hz, hheap, hused⟩ := one_buffer_heap
  have hend : pool_end 0x100000 0x10000 = 0x110000 - 8 := by decide
  have hsize : ((3 : UInt32) * 4).toNat ≤ 0xFC000000 := by decide
  have hfit : fit (request (3 * 4)).toNat = 16 := by decide
  have hfirst : first_ptr.toNat = 0x100C88 := by decide
  have hret : second_ptr = (calloc_ex one_buffer.pool.mem 3 4 (UInt32.ofNat 0x100000)).1 := by rw [second_ptr, tlsf_calloc_ret, hmp]
  rw [hret]
  generalize one_buffer.pool.mem = mem at hheap
  constructor
  · rw [calloc_ex_result _ _ (by decide) (by decide)]
    -- the bytes behind the first block are more than enough
    obtain ⟨c, hc, hfree, hlo, hhi⟩ := hheap.gap (l := 0x101000) (r := 0x102000) (by decide) (by decide) (by omega) fun b hb => by
      rw [(hused b).mp hb]
      simp only [Block.stop]
      omega
    obtain ⟨-, -, hnone⟩ | ⟨a, s', blocks', hgranted, -, hheap', hused', -⟩ := malloc_used hheap hsize
    · have hshort := hnone c hc hfree
      simp only [Block.stop] at hhi
      omega
    · rw [hgranted]
      exact hheap'.buffer_ne_null (mem_used.mp ((hused' _).mpr (Or.inl rfl))).1
  · rw [hfirst]
    obtain ⟨hnull, -⟩ | ⟨a, s', blocks', hgranted, -, hheap', hused', hfresh, -⟩ := calloc_used hheap hsize
    · rw [hnull]
      decide
    · have hroom := hheap'.bounds (mem_used.mp ((hused' _).mpr (Or.inl rfl))).1
      have hne := hfresh _ ((hused _).mpr rfl)
      simp only [Block.stop] at hroom hne
      rw [hgranted, UInt32.toNat_ofNat']
      omega

/-- Before one of them is freed, the two buffers are there at a time. -/
theorem two_buffers_live : ∃ bs cs, bs.length = 100 ∧ cs.length = 12 ∧
    (exec perform (started cleared 0x100000 0x10000) [.malloc 100, .calloc 3 4]).buffers =
      Function.update (Function.update (fun _ => none) first_ptr.toNat (some bs)) second_ptr.toNat (some cs) := by
  obtain ⟨bs, -, -, hbs, hbuffers, -⟩ := one_buffer_heap
  rw [exec_two, ← one_buffer, perform_calloc]
  simp only
  rw [← second_ptr, granted, if_neg second_ptr_granted.1, hbuffers]
  exact ⟨bs, _, hbs, contents_length .., rfl⟩

theorem two_buffers_run : AllSteps perform enabled (started cleared 0x100000 0x10000) two_buffers ∧
    ∀ x, (exec perform (started cleared 0x100000 0x10000) two_buffers).buffers x = none := by
  obtain ⟨bs, cs, hbs, -, hbuffers⟩ := two_buffers_live
  have htaken : ∀ u, AllSteps perform enabled u [.malloc 100, .calloc 3 4] := fun u =>
    ⟨(by decide : (100 : UInt32).toNat ≤ 0xFC000000), (by decide : (3 : UInt32).toNat * (4 : UInt32).toNat ≤ 0xFC000000), trivial⟩
  have hstart := htaken (started cleared 0x100000 0x10000)
  have hagrees := cleared_region.exec hstart
  obtain ⟨hrest, hnone⟩ := hagrees.cut_and_free hbuffers second_ptr_granted.2 hbs
  have hrun := AllSteps.append hstart hrest
  rw [← exec_append] at hnone
  exact ⟨hrun, hnone⟩

theorem calls_refine_two_buffers :
    AllSteps perform (fun u call => Step u.buffers call (perform u call).buffers) (started cleared 0x100000 0x10000)
      two_buffers :=
  calls_refine cleared_region two_buffers_run.1

/-- The buffers are in the pool, as far from a multiple of 8 as the pool is. -/
def Inside (t fin : Nat) (s : Buffers) : Prop :=
  ∀ p bs, s p = some bs → t + 3208 ≤ p ∧ p + bs.length ≤ fin ∧ p % 8 = t % 8

theorem Agrees.inside {start : ByteMem} {fin : Nat} (hagrees : Agrees start t fin u) : Inside t fin u.buffers := by
  obtain ⟨-, ⟨blocks, hheap, howned⟩, -, -⟩ := hagrees
  intro p bs hp
  obtain ⟨b, hb, rfl, hsize⟩ := howned.owner p bs hp
  have hmem := (mem_used.mp hb).1
  have hroom := hheap.bounds hmem
  have haligned := hheap.aligned hmem
  simp only [Block.stop] at hroom
  omega

theorem Agrees.apart {start : ByteMem} {fin : Nat} (hagrees : Agrees start t fin u) : Apart u.buffers := by
  obtain ⟨-, ⟨blocks, hheap, howned⟩, -, -⟩ := hagrees
  exact howned.apart hheap

/-- In every state of a run each buffer holds what its user has put there, no two overlap, and nothing
but the pool has been written. -/
theorem buffers_kept (hregion : Region s.mem t n) (hcalls : AllSteps perform enabled (started s t n) calls) :
    Always perform (fun u => Holds u.pool.mem u.buffers ∧ Apart u.buffers ∧ Inside t (pool_end t n) u.buffers ∧
      Outside s.mem u.pool.mem t (pool_end t n)) (started s t n) calls :=
  Always.of_invariant (Agrees s.mem t (pool_end t n)) (fun _ _ hagrees henabled => (perform_step hagrees henabled).1)
    (fun _ hagrees => ⟨hagrees.holds, hagrees.apart, hagrees.inside, hagrees.outside⟩) hregion.agrees hcalls

theorem buffers_kept_two_buffers :
    Always perform (fun u => Holds u.pool.mem u.buffers ∧ Apart u.buffers ∧ Inside 0x100000 (pool_end 0x100000 0x10000) u.buffers ∧
      Outside cleared.mem u.pool.mem 0x100000 (pool_end 0x100000 0x10000)) (started cleared 0x100000 0x10000) two_buffers :=
  buffers_kept cleared_region two_buffers_run.1

/-- Without buffers the pool is one free block again. -/
theorem Agrees.all_free {start : ByteMem} {fin : Nat} (hagrees : Agrees start t fin u) (hnone : ∀ p, u.buffers p = none)
    (hne : t + 3200 < fin) : Heap u.pool.mem t fin [⟨t + 3200, fin - (t + 3208), true⟩] := by
  obtain ⟨-, ⟨blocks, hheap, howned⟩, -, -⟩ := hagrees
  have hused : used blocks = [] := List.eq_nil_iff_forall_not_mem.mpr fun b hb => howned.buffer b hb (hnone _)
  rw [← hheap.all_free hused hne]
  exact hheap

/-- Whatever has been done to the pool, once its buffers have been freed it answers as a new one. -/
theorem freed_pool_as_new (hregion : Region s.mem t n) (hcalls : AllSteps perform enabled (started s t n) calls)
    (hnone : ∀ p, (exec perform (started s t n) calls).buffers p = none) {size : UInt32} (hsize : size.toNat ≤ 0xFC000000) :
    (tlsf_malloc (exec perform (started s t n) calls).pool size).1 = (tlsf_malloc (started s t n).pool size).1 := by
  have hnew := hregion.agrees
  have hold := hregion.exec hcalls
  have hleast := hregion.least
  have hne : t + 3200 < pool_end t n := by
    unfold pool_end
    omega
  have hfreed := malloc_ex_one_block (hold.all_free hnone hne) hsize
  have hfresh := malloc_ex_one_block (hnew.all_free (fun _ => rfl) hne) hsize
  unfold tlsf_malloc
  rw [hold.mp, hnew.mp, hfreed, hfresh]

theorem freed_pool_as_new_two_buffers :
    (tlsf_malloc (exec perform (started cleared 0x100000 0x10000) two_buffers).pool 200).1 =
      (tlsf_malloc (started cleared 0x100000 0x10000).pool 200).1 :=
  freed_pool_as_new cleared_region two_buffers_run.1 two_buffers_run.2 (by decide)

end Runs

end epos.tlsf
