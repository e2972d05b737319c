import Mathlib.Data.List.Forall2
import ElfCraft.Elf.Lemmas.Mutate

/-!
This module contains runs of `addLoadSegment`: what a sequence of calls does to a parsed file and under
which condition on its steps the result survives serializing and parsing.
-/

namespace ElfCraft
namespace Elf

open Binary

structure LoadSegment where
  vaddr : BitVec 64
  data : List Byte
  flags : BitVec 32
  align : BitVec 64
  deriving DecidableEq

namespace ElfFile

variable {is64 : Bool} {E : Endian}

def load (f : ElfFile is64 E) (call : LoadSegment) : Option (ElfFile is64 E) :=
  f.addLoadSegment call.vaddr call.data call.flags call.align

def loads (f : ElfFile is64 E) (calls : List LoadSegment) : Option (ElfFile is64 E) :=
  match calls with
  | [] => some f
  | call :: calls =>
    match f.load call with
    | none => none
    | some f => f.loads calls

/--
What a step needs so that its segment is found again: the count and the widths of the fields hold what
is assigned to them, the entry size is in the header, the section header table does not shadow the
header fields and the output is not larger than a vector may be.
-/
structure Loadable (f : ElfFile is64 E) (call : LoadSegment) : Prop where
  count : f.segments.length + 1 < 2 ^ 16
  phentsize : f.header.e_phentsize.toNat = (Phdr.codec is64 E).size
  clear : f.SectionsClear
  vaddr : call.vaddr.toNat < 2 ^ wordBits is64
  align : call.align.toNat < 2 ^ wordBits is64
  width : f.raw.size + call.data.length < 2 ^ wordBits is64
  output : f.raw.size + call.data.length + (f.segments.length + 1) * (Phdr.codec is64 E).size
    ≤ maxSize

def AllLoadable (f : ElfFile is64 E) (calls : List LoadSegment) : Prop :=
  match calls with
  | [] => True
  | call :: calls => f.Loadable call ∧ ∀ f', f.load call = some f' → f'.AllLoadable calls

/--
`ph` is the header of the segment that `call` appended to `raw` behind the first `start` bytes.
-/
structure Backs (start : Nat) (raw : Bytes) (call : LoadSegment) (ph : Phdr is64 E) : Prop where
  p_type : ph.p_type = PT_LOAD
  p_vaddr : ph.p_vaddr = call.vaddr
  p_flags : ph.p_flags = call.flags
  p_align : ph.p_align = call.align
  p_filesz : ph.p_filesz.toNat = call.data.length
  start_le : start ≤ ph.p_offset.toNat
  fits : ph.p_offset.toNat + call.data.length ≤ raw.size
  data : slice raw.toList ph.p_offset.toNat call.data.length = call.data

/--
The state after the calls `calls` on the file that was parsed from `bytes`.
-/
structure Loaded (bytes : Bytes) (calls : List LoadSegment) (f : ElfFile is64 E) : Prop where
  header : ∀ off num, f.header.withTable off num = (headerOf is64 E bytes).withTable off num
  sections : f.sections = (fileOf is64 E bytes).sections
  size : bytes.size ≤ f.raw.size
  segments : ∃ news, f.segments = (fileOf is64 E bytes).segments ++ news
    ∧ List.Forall₂ (Backs bytes.size f.raw) calls news

theorem Loaded.init (bytes : Bytes) : Loaded bytes [] (fileOf is64 E bytes) where
  header _ _ := rfl
  sections := rfl
  size := Nat.le_refl _
  segments := ⟨[], (List.append_nil _).symm, .nil⟩

-- The program header that a call appends.
def nextPhdr (f : ElfFile is64 E) (call : LoadSegment) : Phdr is64 E :=
  .load (BitVec.ofNat 64 f.raw.size) call.vaddr (BitVec.ofNat 64 call.data.length) call.align
    call.flags

theorem addLoadSegment_eq_some_iff (f f' : ElfFile is64 E) (call : LoadSegment)
    : f.load call = some f'
        ↔
      ∃ raw, f.raw.append call.data = some raw
        ∧ f' = { f with
            header := f.header.withTable (BitVec.ofNat 64 raw.size)
              (BitVec.ofNat 16 (f.segments.length + 1))
            segments := f.segments ++ [f.nextPhdr call]
            raw } := by
  unfold load addLoadSegment
  cases happ : f.raw.append call.data with
  | none => simp
  | some raw =>
    simp only [Option.some.injEq, List.length_append, List.length_singleton, exists_eq_left']
    unfold Ehdr.withTable nextPhdr
    rw [eq_comm]

theorem toNat_ofNat_of_lt (is64 : Bool) (n : Nat) (h : n < 2 ^ wordBits is64) : (BitVec.ofNat 64 n).toNat = n := by
  have hle : 2 ^ wordBits is64 ≤ 2 ^ 64 := by
    apply Nat.pow_le_pow_right (by omega)
    cases is64
    . exact (by decide : 32 ≤ 64)
    . exact Nat.le_refl 64
  rw [BitVec.toNat_ofNat, Nat.mod_eq_of_lt (by omega)]

theorem Backs.append {start : Nat} {raw raw' : Bytes} {call : LoadSegment} {ph : Phdr is64 E}
    (data : List Byte) (hraw : raw.append data = some raw') (h : Backs start raw call ph)
    : Backs start raw' call ph := by
  rw [Bytes.append_eq_some_iff] at hraw
  have hfits := h.fits
  refine { h with fits := ?_, data := ?_ }
  . unfold Bytes.size at *
    rw [hraw, List.length_append]
    omega
  . rw [hraw, slice_append_left _ _ _ _ hfits, h.data]

theorem Backs.load {start : Nat} {f : ElfFile is64 E} {raw : Bytes} {call : LoadSegment}
    (hstart : start ≤ f.raw.size) (h : f.Loadable call) (hraw : f.raw.append call.data = some raw)
    : Backs start raw call (f.nextPhdr call) := by
  have hwidth := h.width
  have hsize := toNat_ofNat_of_lt is64 f.raw.size (by omega)
  have hlen := toNat_ofNat_of_lt is64 call.data.length (by omega)
  have hoffset : (f.nextPhdr call).p_offset = BitVec.ofNat 64 f.raw.size := by
    apply Phdr.p_offset_load
    omega
  rw [Bytes.append_eq_some_iff] at hraw
  constructor
  . apply Phdr.p_type_load
  . apply Phdr.p_vaddr_load _ _ _ _ _ h.vaddr
  . apply Phdr.p_flags_load
  . apply Phdr.p_align_load _ _ _ _ _ h.align
  . unfold nextPhdr
    rw [Phdr.p_filesz_load _ _ _ _ _ (by omega), hlen]
  . rw [hoffset, hsize]
    exact hstart
  . rw [hoffset, hsize]
    unfold Bytes.size
    rw [hraw, List.length_append]
  . rw [hoffset, hsize, hraw]
    apply slice_append_right
    rfl

/--
One call appends its segment and keeps what the calls before it did.
-/
theorem Loaded.step {bytes : Bytes} {calls : List LoadSegment} {f f' : ElfFile is64 E}
    {call : LoadSegment} (h : Loaded bytes calls f) (hok : f.Loadable call)
    (hload : f.load call = some f')
    : Loaded bytes (calls ++ [call]) f' := by
  rw [addLoadSegment_eq_some_iff] at hload
  obtain ⟨raw, hraw, rfl⟩ := hload
  obtain ⟨news, hsegments, hnews⟩ := h.segments
  have hgrow : f.raw.size ≤ raw.size := by
    rw [Bytes.append_eq_some_iff] at hraw
    unfold Bytes.size
    rw [hraw, List.length_append]
    omega
  constructor
  . intro off num
    rw [Ehdr.withTable_withTable, h.header]
  . exact h.sections
  . exact Nat.le_trans h.size hgrow
  . refine ⟨news ++ [f.nextPhdr call], ?_, List.rel_append ?_ (.cons ?_ .nil)⟩
    . rw [hsegments, List.append_assoc]
    . exact hnews.imp fun _ _ hback => hback.append call.data hraw
    . exact .load h.size hok hraw

theorem Reparsable.of_load {bytes : Bytes} {calls : List LoadSegment} {f f' : ElfFile is64 E}
    {call : LoadSegment} (hwf : WellFormed is64 E bytes) (h : Loaded bytes calls f)
    (hok : f.Loadable call) (hload : f.load call = some f')
    : Reparsable bytes f' := by
  have hloaded := h.step hok hload
  have hwidth := hok.width
  have hclear := hok.clear
  rw [addLoadSegment_eq_some_iff] at hload
  obtain ⟨raw, hraw, rfl⟩ := hload
  rw [Bytes.append_eq_some_iff] at hraw
  unfold SectionsClear at hclear
  constructor
  . refine ⟨hwf, ?_, hloaded.sections, hloaded.size, ?_⟩
    . rw [h.header, List.length_append, List.length_singleton]
    . unfold Bytes.size at *
      rw [hraw, List.length_append]
      exact hwidth
  . unfold SectionsClear
    rw [Ehdr.e_shnum_withTable, Ehdr.e_shoff_withTable]
    exact hclear
  . rw [List.length_append, List.length_singleton]
    exact hok.count
  . intro _
    rw [Ehdr.e_phentsize_withTable]
    exact hok.phentsize

/--
The run lemma: the last call of a run leaves the table at the end of the file, with room for it.
-/
theorem Loaded.run {bytes : Bytes} (hwf : WellFormed is64 E bytes) (calls done : List LoadSegment)
    (f f' : ElfFile is64 E) (h : Loaded bytes done f) (hok : f.AllLoadable calls)
    (hrun : f.loads calls = some f') (hne : calls ≠ [])
    : Loaded bytes (done ++ calls) f' ∧ Reparsable bytes f'
        ∧ f'.raw.size + f'.segments.length * (Phdr.codec is64 E).size ≤ maxSize := by
  induction calls generalizing done f with
  | nil => contradiction
  | cons call calls ih =>
    obtain ⟨hstep, hrest⟩ := hok
    simp only [loads] at hrun
    cases hload : f.load call with
    | none =>
      rw [hload] at hrun
      contradiction
    | some g =>
      rw [hload] at hrun
      have hloaded := h.step hstep hload
      cases calls with
      | nil =>
        rw [← Option.some.inj hrun]
        have hout := hstep.output
        refine ⟨hloaded, .of_load hwf h hstep hload, ?_⟩
        rw [addLoadSegment_eq_some_iff] at hload
        obtain ⟨raw, hraw, rfl⟩ := hload
        rw [Bytes.append_eq_some_iff] at hraw
        rw [List.length_append, List.length_singleton]
        unfold Bytes.size at *
        rw [hraw, List.length_append]
        exact hout
      | cons call' calls =>
        rw [List.append_cons]
        apply ih (done ++ [call]) g hloaded (hrest g hload) hrun
        simp

/--
`f'` is `f` with the segments of `calls` behind its own.
-/
structure HasLoaded (f : ElfFile is64 E) (calls : List LoadSegment) (f' : ElfFile is64 E) : Prop where
  segments_length : f'.segments.length = f.segments.length + calls.length
  segments_old : ∀ i < f.segments.length, f'.segments[i]? = f.segments[i]?
  segments_new : ∀ i call, calls[i]? = some call →
    ∃ ph, f'.segments[f.segments.length + i]? = some ph
      ∧ ph.p_type = PT_LOAD ∧ ph.p_vaddr = call.vaddr ∧ ph.p_flags = call.flags
      ∧ ph.p_align = call.align
      ∧ f'.segmentData (f.segments.length + i) = .ok call.data
  sections : f'.sections = f.sections
  header : ∃ off num, f'.header = f.header.withTable off num

theorem segmentData_of_slice (f : ElfFile is64 E) (i : Nat) (ph : Phdr is64 E) (data : List Byte)
    (hph : f.segments[i]? = some ph) (hsize : ph.p_filesz.toNat = data.length)
    (hfits : ph.p_offset.toNat + data.length ≤ f.raw.size)
    (hdata : slice f.raw.toList ph.p_offset.toNat data.length = data)
    : f.segmentData i = .ok data := by
  unfold segmentData
  rw [hph]
  dsimp only
  rw [if_pos]
  . rw [hsize, hdata]
  . rw [detail.regionFits_bytes_iff, hsize]
    omega

theorem HasLoaded.of_out {bytes out : Bytes} {calls : List LoadSegment} {f : ElfFile is64 E}
    (h : Loaded bytes calls f) (m : Mutated bytes f) (hout : f.serialize = some out)
    : HasLoaded (fileOf is64 E bytes) calls { f with raw := out } := by
  obtain ⟨news, hsegments, hnews⟩ := h.segments
  have hlist := (m.serialize_eq_some_iff out).mp hout
  have hlen := m.length_withShdrs
  constructor
  . show f.segments.length = _
    rw [hsegments, List.length_append, hnews.length_eq]
  . intro i hi
    show f.segments[i]? = _
    rw [hsegments, List.getElem?_append_left hi]
  . intro i call hcall
    have hi : i < news.length := by
      rw [← hnews.length_eq]
      exact (List.getElem?_eq_some_iff.mp hcall).choose
    obtain ⟨hi', hget⟩ := List.getElem?_eq_some_iff.mp hcall
    have hback := hnews.get hi' hi
    rw [List.get_eq_getElem, hget] at hback
    have hph : f.segments[(fileOf is64 E bytes).segments.length + i]? = some (news.get ⟨i, hi⟩) := by
      rw [hsegments, List.getElem?_append_right (by omega), Nat.add_sub_cancel_left]
      exact List.getElem?_eq_getElem hi
    refine ⟨_, hph, hback.p_type, hback.p_vaddr, hback.p_flags, hback.p_align, ?_⟩
    apply segmentData_of_slice { f with raw := out } _ _ _ hph hback.p_filesz
    . have := hback.fits
      show _ ≤ out.size
      unfold Bytes.size at *
      rw [hlist, hlen]
      omega
    . show slice out.toList _ _ = _
      rw [hlist, m.slice_withShdrs _ _ hback.start_le hback.fits, hback.data]
  . exact h.sections
  . exact ⟨_, _, m.header⟩

/--
Every run whose steps are all loadable is found again in what is written for it.
-/
theorem parse_serialize_loads (bytes : Bytes) (f f' : ElfFile is64 E) (calls : List LoadSegment)
    (hparse : parse is64 E bytes = .ok f) (hne : calls ≠ []) (hrun : f.loads calls = some f')
    (hok : f.AllLoadable calls)
    : ∃ out g, f'.serialize = some out ∧ parse is64 E out = .ok g ∧ f.HasLoaded calls g := by
  obtain ⟨hwf, rfl⟩ := (parse_eq_ok_iff bytes f).mp hparse
  obtain ⟨hloaded, m, hmax⟩ := Loaded.run hwf calls [] _ f' (.init bytes) hok hrun hne
  have hfits : f'.withShdrs.length ≤ maxSize := by
    rw [m.length_withShdrs]
    exact hmax
  have hout := (m.serialize_eq_some_iff ⟨_, hfits⟩).mpr rfl
  exact ⟨_, _, hout, m.parse_out hout, .of_out hloaded m.toMutated hout⟩

section Examples

-- An ELF64 big endian file of nothing but its header, with the given `e_phentsize`.
def bareHeader (phentsize : Byte) : Bytes where
  toList :=
    [0x7F, 0x45, 0x4C, 0x46, 0x02, 0x02, 0x01, 0x00, 0x00, 0x00, 0x00, 0x00, 0x00, 0x00, 0x00, 0x00,
      0x00, 0x02, 0x00, 0x15, 0x00, 0x00, 0x00, 0x01, 0x00, 0x00, 0x00, 0x00, 0x00, 0x00, 0x00, 0x00,
      0x00, 0x00, 0x00, 0x00, 0x00, 0x00, 0x00, 0x00, 0x00, 0x00, 0x00, 0x00, 0x00, 0x00, 0x00, 0x00,
      0x00, 0x00, 0x00, 0x00, 0x00, 0x40, 0x00, phentsize, 0x00, 0x00, 0x00, 0x00, 0x00, 0x00, 0x00, 0x00]
  size_le := by
    unfold maxSize
    simp

def fourBytes : LoadSegment :=
  { vaddr := 0x10000, data := [0x60, 0x00, 0x00, 0x00], flags := PF_R ||| PF_X, align := 0x10000 }

theorem wellFormed_bareHeader_56 : WellFormed true .Big (bareHeader 56) := by
  constructor <;> decide +kernel

theorem wellFormed_bareHeader_0 : WellFormed true .Big (bareHeader 0) := by
  constructor <;> decide +kernel

theorem isSome_loads_fourBytes (phentsize : Byte)
    : ((fileOf true .Big (bareHeader phentsize)).loads [fourBytes]).isSome := by
  rfl

theorem parse_serialize_loads_bareHeader_56
    : ∃ out g,
        (((fileOf true .Big (bareHeader 56)).loads [fourBytes]).get
          (isSome_loads_fourBytes 56)).serialize = some out
          ∧ parse true .Big out = .ok g
          ∧ (fileOf true .Big (bareHeader 56)).HasLoaded [fourBytes] g := by
  apply parse_serialize_loads (bareHeader 56)
  . apply parse_of_wellFormed _ wellFormed_bareHeader_56
  . simp
  . rw [Option.some_get]
  . refine ⟨?_, fun _ _ => trivial⟩
    constructor
    . decide +kernel
    . decide +kernel
    . left
      decide +kernel
    . decide +kernel
    . decide +kernel
    . decide +kernel
    . decide +kernel

/--
The appended header is counted, but its size never gets into the header of a file without segments.
-/
theorem parse_serialize_loads_bareHeader_0
    : ¬ ∀ (f f' : ElfFile true .Big), parse true .Big (bareHeader 0) = .ok f →
        f.loads [fourBytes] = some f' →
        ∃ out g, f'.serialize = some out ∧ parse true .Big out = .ok g
          ∧ f.HasLoaded [fourBytes] g := by
  intro h
  obtain ⟨out, g, hout, hg, -⟩ := h _ _ (parse_of_wellFormed _ wellFormed_bareHeader_0)
    (Option.some_get (isSome_loads_fourBytes 0)).symm
  have hrefuse : ((((fileOf true .Big (bareHeader 0)).loads [fourBytes]).get
      (isSome_loads_fourBytes 0)).serialize.map fun out => (parse true .Big out).isOk)
        = some false := by
    decide +kernel
  rw [hout, Option.map_some, hg] at hrefuse
  simp [Except.isOk, Except.toBool] at hrefuse

end Examples

end ElfFile

end Elf
end ElfCraft
