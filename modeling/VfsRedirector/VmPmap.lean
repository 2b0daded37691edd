import VfsRedirector.Library.Copying

/-!
# Writes to wired memory

`QvrWriteWiredSrcToWiredDst` (VmPmap.cpp) copies between two ranges of kernel virtual
addresses that may be protected: each address is converted to a physical one, and the
kernel copies between these, never more at once than what is left of a page on either
side.

`Pmap` is the page table of the kernel, and `bcopy_phys` is a function of the kernel that
is known by what it does within pages (`CopiesPages`). The loop has a bound, and the
length of the range is enough of it: `write_wired`.

## Results

* `AtHead.next` — a round of the loop copies the next bytes.
* `write_wired` — the whole write, and what it returns.
-/

namespace VfsRedirector.VmPmap

open Library

def pageSize : UInt64 := 4096

def pageMask : UInt64 := pageSize - 1

def intelPgshift : UInt64 := 12

def intelOffmask : UInt64 := 4096 - 1

/-- The physical page of every virtual page, 0 where none is mapped. -/
abbrev Pmap := UInt64 → UInt32

abbrev PhysMem := UInt64 → UInt8

/-- `bcopy_phys( src64, dst64, bytes )`, with the memory before and after. -/
abbrev BcopyPhys := PhysMem → UInt64 → UInt64 → UInt64 → PhysMem

/-- `pmap_find_phys( kernel_pmap, va )` -/
def pmapFindPhys (pmap : Pmap) (va : UInt64) : UInt32 := pmap (va >>> intelPgshift)

def qvrVirtToPhys (pmap : Pmap) (addr : UInt64) : UInt64 :=
  let pa := (pmapFindPhys pmap addr).toUInt64 <<< intelPgshift
  if pa ≠ 0 then pa ||| (addr &&& intelOffmask) else pa

structure BcopyCall where
  src64 : UInt64
  dst64 : UInt64
  bytes : UInt64

/-- The variables of the loop, with the memory and the calls that were made. -/
structure Progress where
  curVirtSrc : UInt64
  curVirtDst : UInt64
  resid : UInt64
  memory : PhysMem
  calls : List BcopyCall

/-- As many bytes as possible without crossing a page. -/
def chunk (curPhysSrc curPhysDst resid : UInt64) : UInt64 :=
  let cntSrc := pageSize - (curPhysSrc &&& pageMask)
  let cntDst := pageSize - (curPhysDst &&& pageMask)
  let cnt := if cntSrc > cntDst then cntDst else cntSrc
  if cnt > resid then resid else cnt

/-- The rest of a round, with both pages mapped. -/
def Progress.next (bcopyPhys : BcopyPhys) (s : Progress) (curPhysSrc curPhysDst : UInt64) :
    Progress :=
  let cnt := chunk curPhysSrc curPhysDst s.resid
  { curVirtSrc := s.curVirtSrc + cnt
    curVirtDst := s.curVirtDst + cnt
    resid := s.resid - cnt
    memory := bcopyPhys s.memory curPhysSrc curPhysDst cnt
    calls := s.calls ++ [⟨curPhysSrc, curPhysDst, cnt⟩] }

/-- `none` at the bound. -/
def copyLoop (pmap : Pmap) (bcopyPhys : BcopyPhys) : Nat → Progress → Option Progress
  | 0, _ => none
  | bound + 1, s =>
    if s.resid ≠ 0 then
      let curPhysDst := qvrVirtToPhys pmap s.curVirtDst
      if curPhysDst = 0 then some s
      else
        let curPhysSrc := qvrVirtToPhys pmap s.curVirtSrc
        if curPhysSrc = 0 then some s
        else copyLoop pmap bcopyPhys bound (s.next bcopyPhys curPhysSrc curPhysDst)
    else some s

/-- The number that is returned is an `unsigned int`. -/
def qvrWriteWiredSrcToWiredDst (pmap : Pmap) (bcopyPhys : BcopyPhys) (memory : PhysMem)
    (bound : Nat) (src dst len : UInt64) : Option (UInt32 × Progress) :=
  (copyLoop pmap bcopyPhys bound ⟨src, dst, len, memory, []⟩).map fun s =>
    ((len - s.resid).toUInt32, s)

-- ---------------------------------------------------------------------------
-- Addresses
-- ---------------------------------------------------------------------------

/-- The mask gives the offset in the page. -/
theorem toNat_pageOffset (addr : UInt64) : (addr &&& pageMask).toNat = addr.toNat % 4096 := by
  have hmask : pageMask.toNat = 2 ^ 12 - 1 := rfl
  rw [UInt64.toNat_and, hmask, Nat.and_two_pow_sub_one_eq_mod]

/-- The shift gives the number of the page. -/
theorem toNat_pageNumber (addr : UInt64) : (addr >>> intelPgshift).toNat = addr.toNat / 4096 := by
  have hshift : intelPgshift.toNat % 64 = 12 := rfl
  rw [UInt64.toNat_shiftRight, hshift, Nat.shiftRight_eq_div_pow]

/-- The address of a page is its number times the size, which does not overflow. -/
theorem toNat_pageAddr (page : UInt32) :
    (page.toUInt64 <<< intelPgshift).toNat = page.toNat * 4096 := by
  have hshift : intelPgshift.toNat % 64 = 12 := rfl
  have hpage := page.toNat_lt
  rw [UInt64.toNat_shiftLeft, hshift, UInt32.toNat_toUInt64, Nat.shiftLeft_eq]
  omega

/-- A sum below `2 ^ 64` is the sum. -/
theorem toNat_add_ofNat {addr : UInt64} {i : Nat} (h : addr.toNat + i < 2 ^ 64) :
    (addr + UInt64.ofNat i).toNat = addr.toNat + i := by
  rw [UInt64.toNat_add, UInt64.toNat_ofNat']
  omega

section Addresses

variable {pmap : Pmap} {va : UInt64}

/-- An address that is not mapped is translated to 0. -/
theorem qvrVirtToPhys_eq_zero (h : pmapFindPhys pmap va = 0) : qvrVirtToPhys pmap va = 0 := by
  unfold qvrVirtToPhys
  rw [h]
  rfl

/-- What is mapped has its page's address and its offset. -/
theorem toNat_qvrVirtToPhys (h : pmapFindPhys pmap va ≠ 0) :
    (qvrVirtToPhys pmap va).toNat = (pmapFindPhys pmap va).toNat * 4096 + va.toNat % 4096 := by
  have hpage : (pmapFindPhys pmap va).toNat ≠ 0 := fun hzero => h (UInt32.toNat_inj.mp hzero)
  have hpa := toNat_pageAddr (pmapFindPhys pmap va)
  have hne : (pmapFindPhys pmap va).toUInt64 <<< intelPgshift ≠ 0 := by
    intro hzero
    rw [hzero] at hpa
    change 0 = _ at hpa
    omega
  have hlt : va.toNat % 4096 < 2 ^ 12 := Nat.mod_lt _ (by decide)
  unfold qvrVirtToPhys
  rw [if_pos hne, UInt64.toNat_or, hpa]
  rw [show (va &&& intelOffmask).toNat = va.toNat % 4096 from toNat_pageOffset va]
  have hor := Nat.shiftLeft_add_eq_or_of_lt hlt (pmapFindPhys pmap va).toNat
  rw [Nat.shiftLeft_eq] at hor
  exact hor.symm

/-- As no page is mapped to page 0, no mapped address is 0. -/
theorem qvrVirtToPhys_eq_zero_iff : qvrVirtToPhys pmap va = 0 ↔ pmapFindPhys pmap va = 0 := by
  refine ⟨fun hzero => ?_, qvrVirtToPhys_eq_zero⟩
  by_contra h
  have hpa := toNat_qvrVirtToPhys h
  have hpage : (pmapFindPhys pmap va).toNat ≠ 0 := fun hzero => h (UInt32.toNat_inj.mp hzero)
  rw [hzero] at hpa
  change 0 = _ at hpa
  omega

/-- A page ends at a multiple of its size. -/
theorem toNat_add_within {i : Nat} (hi : va.toNat % 4096 + i < 4096) :
    (va + UInt64.ofNat i).toNat = va.toNat + i := by
  have hva := va.toNat_lt
  exact toNat_add_ofNat (by omega)

/-- Two addresses in one page are mapped alike. -/
theorem pmapFindPhys_add {i : Nat} (hi : va.toNat % 4096 + i < 4096) :
    pmapFindPhys pmap (va + UInt64.ofNat i) = pmapFindPhys pmap va := by
  unfold pmapFindPhys
  congr 1
  rw [← UInt64.toNat_inj, toNat_pageNumber, toNat_pageNumber, toNat_add_within hi]
  omega

/-- Within a page, physical addresses follow each other as the virtual ones do. -/
theorem qvrVirtToPhys_add (h : pmapFindPhys pmap va ≠ 0) {i : Nat}
    (hi : va.toNat % 4096 + i < 4096) :
    qvrVirtToPhys pmap (va + UInt64.ofNat i) = qvrVirtToPhys pmap va + UInt64.ofNat i := by
  have hadd := toNat_add_within hi
  have hpage : pmapFindPhys pmap (va + UInt64.ofNat i) = pmapFindPhys pmap va :=
    pmapFindPhys_add hi
  have hlt := (pmapFindPhys pmap va).toNat_lt
  have hpa := toNat_qvrVirtToPhys h
  rw [← UInt64.toNat_inj, toNat_qvrVirtToPhys (hpage ▸ h), hpage, hadd,
    toNat_add_ofNat (by omega), hpa]
  omega

end Addresses

-- ---------------------------------------------------------------------------
-- Ranges
-- ---------------------------------------------------------------------------

/-- The places from an address on. -/
def range (addr : UInt64) (i : Nat) : Option UInt64 := some (addr + UInt64.ofNat i)

/-- The physical bytes behind the virtual addresses from `start` on. -/
def physByte (pmap : Pmap) (start : UInt64) (i : Nat) : Option UInt64 :=
  if pmapFindPhys pmap (start + UInt64.ofNat i) = 0 then none
  else some (qvrVirtToPhys pmap (start + UInt64.ofNat i))

/-- The bytes from `addr` on are of one page. -/
def WithinPage (addr bytes : UInt64) : Prop :=
  (addr &&& pageMask).toNat + bytes.toNat ≤ pageSize.toNat

def BcopyCall.WithinPages (call : BcopyCall) : Prop :=
  WithinPage call.src64 call.bytes ∧ WithinPage call.dst64 call.bytes

/-- `bcopy_phys` copies what is within a page on both sides and does not overlap. -/
def CopiesPages (bcopyPhys : BcopyPhys) : Prop :=
  ∀ memory src64 dst64 bytes, WithinPage src64 bytes → WithinPage dst64 bytes →
    Apart (range src64) (range dst64) bytes.toNat →
    Copied (range src64) (range dst64) memory bytes.toNat (bcopyPhys memory src64 dst64 bytes)

/-- No two pages of a range are mapped to the same physical page. -/
def DistinctPages (pmap : Pmap) (start : UInt64) (len : Nat) : Prop :=
  ∀ i < len, ∀ j < len, pmapFindPhys pmap (start + UInt64.ofNat i) ≠ 0 →
    pmapFindPhys pmap (start + UInt64.ofNat i) = pmapFindPhys pmap (start + UInt64.ofNat j) →
    (start + UInt64.ofNat i) >>> intelPgshift = (start + UInt64.ofNat j) >>> intelPgshift

/-- A copy is within pages if both of its ranges are. -/
theorem withinPages_mk {src64 dst64 bytes : UInt64} :
    BcopyCall.WithinPages ⟨src64, dst64, bytes⟩ ↔ WithinPage src64 bytes ∧ WithinPage dst64 bytes :=
  Iff.rfl

/-- A range is within a page if it ends at or before its end. -/
theorem withinPage_iff {addr bytes : UInt64} :
    WithinPage addr bytes ↔ addr.toNat % 4096 + bytes.toNat ≤ 4096 := by
  have hsize : pageSize.toNat = 4096 := rfl
  unfold WithinPage
  rw [toNat_pageOffset, hsize]

section Ranges

variable {pmap : Pmap} {start : UInt64} {n i len : Nat}

/-- A byte that is there is mapped, at this address. -/
theorem physByte_eq_some {a : UInt64} (h : physByte pmap start i = some a) :
    pmapFindPhys pmap (start + UInt64.ofNat i) ≠ 0 ∧
      qvrVirtToPhys pmap (start + UInt64.ofNat i) = a := by
  unfold physByte at h
  split at h
  · cases h
  · exact ⟨‹_›, Option.some.inj h⟩

/-- The rest of a page is one range of physical addresses. -/
theorem physByte_add (h : pmapFindPhys pmap (start + UInt64.ofNat n) ≠ 0)
    (hi : (start + UInt64.ofNat n).toNat % 4096 + i < 4096) :
    physByte pmap start (n + i) = range (qvrVirtToPhys pmap (start + UInt64.ofNat n)) i := by
  have haddr : start + UInt64.ofNat (n + i) = start + UInt64.ofNat n + UInt64.ofNat i := by
    rw [UInt64.ofNat_add, UInt64.add_assoc]
  unfold physByte range
  rw [haddr, pmapFindPhys_add hi, if_neg h, qvrVirtToPhys_add h hi]

/-- Pages of their own make bytes of their own. -/
theorem DistinctPages.distinct (h : DistinctPages pmap start len)
    (hwrap : start.toNat + len ≤ 2 ^ 64) : Distinct (physByte pmap start) len := by
  intro i hi j hj hsome heq
  obtain ⟨a, ha⟩ := Option.ne_none_iff_exists'.mp hsome
  obtain ⟨hmappedi, hai⟩ := physByte_eq_some ha
  obtain ⟨hmappedj, haj⟩ := physByte_eq_some (heq.symm.trans ha)
  have hpai := toNat_qvrVirtToPhys hmappedi
  have hpaj := toNat_qvrVirtToPhys hmappedj
  rw [hai] at hpai
  rw [haj] at hpaj
  have hpages : (pmapFindPhys pmap (start + UInt64.ofNat i)).toNat =
      (pmapFindPhys pmap (start + UInt64.ofNat j)).toNat := by omega
  have hnumber := congrArg UInt64.toNat (h i hi j hj hmappedi (UInt32.toNat_inj.mp hpages))
  rw [toNat_pageNumber, toNat_pageNumber] at hnumber
  have hvi : (start + UInt64.ofNat i).toNat = start.toNat + i := toNat_add_ofNat (by omega)
  have hvj : (start + UInt64.ofNat j).toNat = start.toNat + j := toNat_add_ofNat (by omega)
  omega

end Ranges

-- ---------------------------------------------------------------------------
-- The loop
-- ---------------------------------------------------------------------------

/-- A round copies up to the end of one of the pages, or of the range. -/
theorem toNat_chunk (curPhysSrc curPhysDst resid : UInt64) :
    (chunk curPhysSrc curPhysDst resid).toNat =
      min (min (4096 - curPhysSrc.toNat % 4096) (4096 - curPhysDst.toNat % 4096)) resid.toNat := by
  have hleft : ∀ addr : UInt64,
      (pageSize - (addr &&& pageMask)).toNat = 4096 - addr.toNat % 4096 := by
    intro addr
    have hsize : pageSize.toNat = 4096 := rfl
    have hoffset := toNat_pageOffset addr
    have hle : addr &&& pageMask ≤ pageSize := by
      rw [UInt64.le_iff_toNat_le]
      omega
    rw [UInt64.toNat_sub_of_le _ _ hle, hsize, hoffset]
  have hsrc := hleft curPhysSrc
  have hdst := hleft curPhysDst
  unfold chunk
  simp only [gt_iff_lt, UInt64.lt_iff_toNat_lt]
  split <;> split <;> omega

/-- What is promised of the ranges: they do not wrap, the physical bytes of the source are
not those of the destination, and each page of the destination has its own physical page. -/
structure WiredRanges (pmap : Pmap) (src dst len : UInt64) : Prop where
  len_lt : len.toNat < 2 ^ 32
  src_fits : src.toNat + len.toNat ≤ 2 ^ 64
  dst_fits : dst.toNat + len.toNat ≤ 2 ^ 64
  apart : Apart (physByte pmap src) (physByte pmap dst) len.toNat
  pages : DistinctPages pmap dst len.toNat

/-- The state at the head of the loop, after `n` bytes. -/
structure AtHead (pmap : Pmap) (src dst len : UInt64) (memory : PhysMem) (s : Progress) (n : Nat) :
    Prop where
  curVirtSrc : s.curVirtSrc = src + UInt64.ofNat n
  curVirtDst : s.curVirtDst = dst + UInt64.ofNat n
  resid : n + s.resid.toNat = len.toNat
  copied : Copied (physByte pmap src) (physByte pmap dst) memory n s.memory
  within : ∀ call ∈ s.calls, call.WithinPages

/-- The page that holds byte `n` of a range is not mapped. -/
def Unmapped (pmap : Pmap) (start : UInt64) (n : Nat) : Prop :=
  pmapFindPhys pmap (start + UInt64.ofNat n) = 0

section Loop

variable {pmap : Pmap} {bcopyPhys : BcopyPhys} {src dst len : UInt64} {memory : PhysMem}
  {s : Progress} {n : Nat}

/-- Before the first round nothing is copied. -/
theorem atHead_start : AtHead pmap src dst len memory ⟨src, dst, len, memory, []⟩ 0 where
  curVirtSrc := (UInt64.add_zero src).symm
  curVirtDst := (UInt64.add_zero dst).symm
  resid := Nat.zero_add _
  copied := copied_zero
  within := fun _ hcall => nomatch hcall

/-- A round copies the next bytes, as many as both pages have left. -/
theorem AtHead.next (hs : AtHead pmap src dst len memory s n) (hbcopy : CopiesPages bcopyPhys)
    (h : WiredRanges pmap src dst len) (hsrc : ¬Unmapped pmap src n) (hdst : ¬Unmapped pmap dst n)
    {cnt : UInt64} (hcnt : cnt = chunk (qvrVirtToPhys pmap (src + UInt64.ofNat n))
      (qvrVirtToPhys pmap (dst + UInt64.ofNat n)) s.resid) :
    AtHead pmap src dst len memory (s.next bcopyPhys (qvrVirtToPhys pmap (src + UInt64.ofNat n))
      (qvrVirtToPhys pmap (dst + UInt64.ofNat n))) (n + cnt.toNat) := by
  have hchunk := toNat_chunk (qvrVirtToPhys pmap (src + UInt64.ofNat n))
    (qvrVirtToPhys pmap (dst + UInt64.ofNat n)) s.resid
  rw [← hcnt] at hchunk
  have hpsrc := toNat_qvrVirtToPhys hsrc
  have hpdst := toNat_qvrVirtToPhys hdst
  have hresid := hs.resid
  have hle : n + cnt.toNat ≤ len.toNat := by omega
  -- the bytes of the round are contiguous on both sides
  have hpartSrc : ∀ i < cnt.toNat, physByte pmap src (n + i) =
      range (qvrVirtToPhys pmap (src + UInt64.ofNat n)) i :=
    fun i hi => physByte_add hsrc (by omega)
  have hpartDst : ∀ i < cnt.toNat, physByte pmap dst (n + i) =
      range (qvrVirtToPhys pmap (dst + UInt64.ofNat n)) i :=
    fun i hi => physByte_add hdst (by omega)
  have hwithinSrc : WithinPage (qvrVirtToPhys pmap (src + UInt64.ofNat n)) cnt :=
    withinPage_iff.mpr (by omega)
  have hwithinDst : WithinPage (qvrVirtToPhys pmap (dst + UInt64.ofNat n)) cnt :=
    withinPage_iff.mpr (by omega)
  have hapart := h.apart.mono hle
  have hcopies := (hbcopy s.memory _ _ cnt hwithinSrc hwithinDst
    (hapart.part.congr (fun i hi => (hpartSrc i hi).symm) fun i hi => (hpartDst i hi).symm)).congr
      hpartSrc hpartDst
  have hadvance : ∀ addr : UInt64,
      addr + UInt64.ofNat n + cnt = addr + UInt64.ofNat (n + cnt.toNat) := by
    intro addr
    rw [UInt64.ofNat_add, UInt64.ofNat_toNat, UInt64.add_assoc]
  unfold Progress.next
  rw [← hcnt]
  constructor
  case curVirtSrc => rw [← hadvance, hs.curVirtSrc]
  case curVirtDst => rw [← hadvance, hs.curVirtDst]
  case resid =>
    have hcntLe : cnt ≤ s.resid := by
      rw [UInt64.le_iff_toNat_le]
      omega
    rw [UInt64.toNat_sub_of_le _ _ hcntLe]
    omega
  case copied =>
    exact hs.copied.chunk hcopies hapart ((h.pages.distinct h.dst_fits).mono hle)
  case within =>
    intro call hcall
    rcases List.mem_append.mp hcall with hcall | hcall
    · exact hs.within call hcall
    · rw [List.mem_singleton.mp hcall]
      exact withinPages_mk.mpr ⟨hwithinSrc, hwithinDst⟩

/-- The loop ends at the end of the range or at a page that is not mapped, and needs no
more rounds than there are bytes left. -/
theorem copyLoop_ends (hs : AtHead pmap src dst len memory s n) (hbcopy : CopiesPages bcopyPhys)
    (h : WiredRanges pmap src dst len) :
    ∃ s' n', (∀ bound, s.resid.toNat ≤ bound →
        copyLoop pmap bcopyPhys (bound + 1) s = some s') ∧
      AtHead pmap src dst len memory s' n' ∧
      (n' < len.toNat → Unmapped pmap src n' ∨ Unmapped pmap dst n') := by
  induction hleft : s.resid.toNat using Nat.strong_induction_on generalizing s n with
  | _ left ih =>
    have hresid := hs.resid
    by_cases hzero : s.resid = 0
    · refine ⟨s, n, fun bound _ => ?_, hs, fun hlt => ?_⟩
      · rw [copyLoop, if_neg (not_not.mpr hzero)]
      · rw [hzero] at hresid
        change n + 0 = _ at hresid
        omega
    by_cases hdst : Unmapped pmap dst n
    · refine ⟨s, n, fun bound _ => ?_, hs, fun _ => .inr hdst⟩
      rw [copyLoop, if_pos hzero, hs.curVirtDst]
      exact if_pos (qvrVirtToPhys_eq_zero hdst)
    have hdst' := mt qvrVirtToPhys_eq_zero_iff.mp hdst
    by_cases hsrc : Unmapped pmap src n
    · refine ⟨s, n, fun bound _ => ?_, hs, fun _ => .inl hsrc⟩
      rw [copyLoop, if_pos hzero, hs.curVirtDst, hs.curVirtSrc]
      exact (if_neg hdst').trans (if_pos (qvrVirtToPhys_eq_zero hsrc))
    have hsrc' := mt qvrVirtToPhys_eq_zero_iff.mp hsrc
    -- a round: at least one byte is copied
    have hnext := hs.next hbcopy h hsrc hdst rfl
    have hchunk := toNat_chunk (qvrVirtToPhys pmap (src + UInt64.ofNat n))
      (qvrVirtToPhys pmap (dst + UInt64.ofNat n)) s.resid
    have hpos : s.resid.toNat ≠ 0 := fun hzero' => hzero (UInt64.toNat_inj.mp hzero')
    have hnextResid := hnext.resid
    obtain ⟨s', n', hloop, hs', hends⟩ := ih _ (by omega) hnext rfl
    refine ⟨s', n', fun bound hbound => ?_, hs', hends⟩
    obtain ⟨bound, rfl⟩ := Nat.exists_eq_add_one_of_ne_zero (show bound ≠ 0 by omega)
    rw [copyLoop, if_pos hzero, hs.curVirtDst, hs.curVirtSrc]
    refine (if_neg hdst').trans ((if_neg hsrc').trans ?_)
    exact hloop bound (by omega)

end Loop

/-- A call that returned `n` has copied the first `n` bytes and done nothing else, within
pages; it stops early only at a byte whose page is not mapped on one side. -/
structure WiredCopied (pmap : Pmap) (src dst len : UInt64) (memory : PhysMem) (n : UInt32)
    (s : Progress) : Prop where
  le : n.toNat ≤ len.toNat
  copied : Copied (physByte pmap src) (physByte pmap dst) memory n.toNat s.memory
  within : ∀ call ∈ s.calls, call.WithinPages
  stops : n.toNat < len.toNat → Unmapped pmap src n.toNat ∨ Unmapped pmap dst n.toNat

/-- **A write to wired memory is exact**: `QvrWriteWiredSrcToWiredDst` returns, and what it
returns is the number of bytes that it has copied. -/
theorem write_wired {pmap : Pmap} {bcopyPhys : BcopyPhys} (hbcopy : CopiesPages bcopyPhys)
    {src dst len : UInt64} (h : WiredRanges pmap src dst len) (memory : PhysMem) :
    ∃ n s, (∀ bound, len.toNat < bound →
        qvrWriteWiredSrcToWiredDst pmap bcopyPhys memory bound src dst len = some (n, s)) ∧
      WiredCopied pmap src dst len memory n s := by
  have hstart : AtHead pmap src dst len memory ⟨src, dst, len, memory, []⟩ 0 := atHead_start
  obtain ⟨s, n, hloop, hs, hends⟩ := copyLoop_ends hstart hbcopy h
  have hresid := hs.resid
  have hlen := h.len_lt
  have hle : s.resid ≤ len := by
    rw [UInt64.le_iff_toNat_le]
    omega
  -- what was copied is what is no longer left
  have hcount : (len - s.resid).toUInt32.toNat = n := by
    rw [UInt64.toNat_toUInt32, UInt64.toNat_sub_of_le _ _ hle]
    omega
  refine ⟨(len - s.resid).toUInt32, s, fun bound hbound => ?_, ?_⟩
  · obtain ⟨bound, rfl⟩ := Nat.exists_eq_add_one_of_ne_zero (Nat.ne_zero_of_lt hbound)
    unfold qvrWriteWiredSrcToWiredDst
    rw [hloop bound (Nat.le_of_lt_succ hbound)]
    rfl
  · constructor
    case le => omega
    case copied =>
      rw [hcount]
      exact hs.copied
    case within => exact hs.within
    case stops =>
      rw [hcount]
      exact hends

namespace Scattered

/-- Of the ranges below, the last byte of the destination is on a page that is not mapped. -/
def pmap : Pmap := fun page => if page = 1 then 8 else if page = 2 then 3 else
  if page = 5 then 6 else 0

def src : UInt64 := 8190

def dst : UInt64 := 24573

def copyBytes : BcopyPhys := fun memory src64 dst64 bytes addr =>
  if addr - dst64 < bytes then memory (src64 + (addr - dst64)) else memory addr

/-- A copy byte by byte copies what is within pages. -/
theorem copiesPages_copyBytes : CopiesPages copyBytes := by
  intro memory src64 dst64 bytes _ _ _
  have hbytes := bytes.toNat_lt
  refine ⟨fun i hi => ⟨_, _, rfl, rfl, ?_⟩, fun addr haddr => ?_⟩
  · have hsub : dst64 + UInt64.ofNat i - dst64 = UInt64.ofNat i := by
      rw [UInt64.add_comm, UInt64.add_sub_cancel]
    have hlt : UInt64.ofNat i < bytes := by
      rw [UInt64.lt_iff_toNat_lt, UInt64.toNat_ofNat']
      omega
    unfold copyBytes
    rw [hsub, if_pos hlt]
  · refine if_neg fun hlt => ?_
    refine haddr (addr - dst64).toNat (UInt64.lt_iff_toNat_lt.mp hlt) ?_
    unfold range
    rw [UInt64.ofNat_toNat, UInt64.add_comm, UInt64.sub_add_cancel]

/-- The two ranges fit below `2 ^ 64`, and no byte of one is in the other. -/
theorem wiredRanges : WiredRanges pmap src dst 4 where
  len_lt := by decide
  src_fits := by decide
  dst_fits := by decide
  apart := by unfold Apart; decide
  pages := by unfold DistinctPages; decide

def memory : PhysMem := UInt64.toUInt8

example : (qvrWriteWiredSrcToWiredDst pmap copyBytes memory 5 src dst 4).map Prod.fst = some 3 := by
  decide +kernel

end Scattered

open Scattered in
/-- A write that stops before its last byte. -/
theorem write_wired_scattered : ∃ n s, (∀ bound, (4 : UInt64).toNat < bound →
      qvrWriteWiredSrcToWiredDst pmap copyBytes memory bound src dst 4 = some (n, s)) ∧
    WiredCopied pmap src dst 4 memory n s :=
  write_wired copiesPages_copyBytes wiredRanges memory

end VfsRedirector.VmPmap
