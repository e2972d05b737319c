import ElfCraft.Elf.Lemmas.Separate

/-!
This module contains sessions that save their file and load it again at any time. Nothing but bytes of the header
and of the tables changes when a file is loaded again.
-/

namespace ElfCraft
namespace Elf

open Binary

/-
Sessions, and what they mean without any file.
-/

inductive Action where
  | edit (mutation : Mutation)
  | reload
  deriving DecidableEq

structure Shape where
  type : BitVec 32
  flags : BitVec 32
  offset : BitVec 64
  vaddr : BitVec 64
  paddr : BitVec 64
  filesz : BitVec 64
  memsz : BitVec 64
  align : BitVec 64
  deriving DecidableEq

def Phdr.shape {is64 : Bool} {E : Endian} (ph : Phdr is64 E) : Shape where
  type := ph.p_type
  flags := ph.p_flags
  offset := ph.p_offset
  vaddr := ph.p_vaddr
  paddr := ph.p_paddr
  filesz := ph.p_filesz
  memsz := ph.p_memsz
  align := ph.p_align

def LoadSegment.shape (call : LoadSegment) (offset : Nat) : Shape where
  type := PT_LOAD
  flags := call.flags
  offset := BitVec.ofNat 64 offset
  vaddr := call.vaddr
  paddr := call.vaddr
  filesz := BitVec.ofNat 64 call.data.length
  memsz := BitVec.ofNat 64 call.data.length
  align := call.align

/--
What a file is to the tool: the fields that describe the program, the size of the file, the place of the
program header table and the bytes that are known.
-/
structure View (is64 : Bool) (E : Endian) where
  entry : BitVec 64
  shapes : List Shape
  sections : List (Shdr is64 E)
  size : Nat
  table : Nat
  data : Nat → Option Byte

-- A patch that does not fit into the file is refused, what is written over unknown bytes is not kept.
def View.patch {is64 : Bool} {E : Endian} (v : View is64 E) (offset : Nat) (newBytes : List Byte)
    : View is64 E :=
  if offset + newBytes.length ≤ v.size then
    { v with
      data := fun i => (v.data i).map fun b =>
        if offset ≤ i then newBytes.getD (i - offset) b else b }
  else
    v

/--
A byte that is known stays known. The appended ones are behind the end of the file, where the program header
table follows them, and loading the file again makes the table a part of it.
-/
def stepView {is64 : Bool} {E : Endian} (v : View is64 E) (action : Action) : View is64 E :=
  match action with
  | .edit (.setEntry addr) => { v with entry := addr }
  | .edit (.patchBytesAt offset newBytes) => v.patch offset.toNat newBytes
  | .edit (.addLoadSegment call) =>
    { v with
      shapes := v.shapes ++ [call.shape v.size]
      size := v.size + call.data.length
      table := v.size + call.data.length
      data := fun i => if v.size ≤ i then call.data[i - v.size]? else v.data i }
  | .reload => { v with size := max v.size (v.table + v.shapes.length * (Phdr.codec is64 E).size) }

namespace ElfFile

variable {is64 : Bool} {E : Endian}

-- The bytes that neither the header nor one of the tables is written over.
def Outside (f : ElfFile is64 E) (i : Nat) : Prop :=
  (Ehdr.codec is64 E).size ≤ i
    ∧ (i < f.header.e_phoff.toNat
      ∨ f.header.e_phoff.toNat + f.segments.length * (Phdr.codec is64 E).size ≤ i)
    ∧ (i < f.header.e_shoff.toNat
      ∨ f.header.e_shoff.toNat + f.sections.length * (Shdr.codec is64 E).size ≤ i)

instance (f : ElfFile is64 E) (i : Nat) : Decidable (f.Outside i) := by
  unfold Outside
  infer_instance

def view (f : ElfFile is64 E) : View is64 E where
  entry := f.entry
  shapes := f.segments.map Phdr.shape
  sections := f.sections
  size := f.raw.size
  table := f.header.e_phoff.toNat
  data i := if f.Outside i then f.raw.toList[i]? else none

/--
The file is one of those that the view describes.
-/
structure Shows (f : ElfFile is64 E) (v : View is64 E) : Prop where
  entry : f.entry = v.entry
  shapes : f.segments.map Phdr.shape = v.shapes
  sections : f.sections = v.sections
  size : f.raw.size = v.size
  table : f.header.e_phoff.toNat = v.table
  data : ∀ i b, v.data i = some b → f.Outside i ∧ f.raw.toList[i]? = some b

theorem shows_view (f : ElfFile is64 E) : f.Shows f.view := by
  constructor <;> try rfl
  intro i b hb
  unfold view at hb
  dsimp only at hb
  split at hb
  . next houtside => exact ⟨houtside, hb⟩
  . contradiction

def act (f : ElfFile is64 E) (action : Action) : Option (ElfFile is64 E) :=
  match action with
  | .edit mutation => f.mutate mutation
  | .reload => f.serialize.bind fun out => (parse is64 E out).toOption

def acts (f : ElfFile is64 E) (actions : List Action) : Option (ElfFile is64 E) :=
  actions.foldlM act f

/--
The fields of the header and of the new program header hold what is assigned to them, and `e_phentsize`,
which nothing assigns, is the size of a program header.
-/
def HasRoom (f : ElfFile is64 E) (action : Action) : Prop :=
  match action with
  | .edit (.setEntry addr) => addr.toNat < 2 ^ wordBits is64
  | .edit (.addLoadSegment call) =>
    f.segments.length + 1 < 2 ^ 16 ∧ f.header.e_phentsize.toNat = (Phdr.codec is64 E).size
      ∧ f.raw.size + call.data.length < 2 ^ wordBits is64
      ∧ call.vaddr.toNat < 2 ^ wordBits is64 ∧ call.align.toNat < 2 ^ wordBits is64
  | _ => True

instance (f : ElfFile is64 E) (action : Action) : Decidable (f.HasRoom action) := by
  unfold HasRoom
  split <;> infer_instance

def AllRoom (f : ElfFile is64 E) (actions : List Action) : Prop :=
  match actions with
  | [] => True
  | action :: actions => f.HasRoom action ∧ ∀ g, f.act action = some g → g.AllRoom actions

theorem allRoom_cons_iff (f : ElfFile is64 E) (action : Action) (actions : List Action)
    : f.AllRoom (action :: actions) ↔ f.HasRoom action ∧ ∀ g ∈ f.act action, g.AllRoom actions := by
  rfl

instance decidableAllRoom (f : ElfFile is64 E) (actions : List Action) : Decidable (f.AllRoom actions) :=
  match actions with
  | [] => isTrue trivial
  | action :: actions =>
    have (g : ElfFile is64 E) := decidableAllRoom g actions
    decidable_of_iff _ (f.allRoom_cons_iff action actions).symm

theorem acts_cons_eq_some_iff (f g : ElfFile is64 E) (action : Action) (actions : List Action)
    : f.acts (action :: actions) = some g ↔ ∃ f', f.act action = some f' ∧ f'.acts actions = some g := by
  unfold acts
  rw [List.foldlM_cons]
  exact Option.bind_eq_some_iff

theorem shape_nextPhdr {f : ElfFile is64 E} {call : LoadSegment}
    (h : f.HasRoom (.edit (.addLoadSegment call)))
    : (f.nextPhdr call).shape = call.shape f.raw.size := by
  have ⟨_, _, hwidth, hvaddr, halign⟩ := h
  have hlen := toNat_ofNat_of_lt is64 call.data.length (by omega)
  have hoffset := toNat_ofNat_of_lt is64 f.raw.size (by omega)
  unfold Phdr.shape LoadSegment.shape nextPhdr
  rw [Phdr.p_type_load, Phdr.p_flags_load, Phdr.p_offset_load _ _ _ _ _ (by omega),
    Phdr.p_vaddr_load _ _ _ _ _ hvaddr, Phdr.p_paddr_load _ _ _ _ _ hvaddr,
    Phdr.p_filesz_load _ _ _ _ _ (by omega), Phdr.p_memsz_load _ _ _ _ _ (by omega),
    Phdr.p_align_load _ _ _ _ _ halign]

theorem act_reload {f g : ElfFile is64 E} (s : Separate f) (h : f.act .reload = some g)
    : ∃ out, f.serialize = some out ∧ g = { f with raw := out } := by
  unfold act at h
  rw [Option.bind_eq_some_iff] at h
  have ⟨out, hout, hparse⟩ := h
  have ⟨hwf, hfile⟩ := s.fileOf_out hout
  rw [parse_of_wellFormed out hwf, hfile] at hparse
  exact ⟨out, hout, (Option.some.inj hparse).symm⟩

theorem mutate_patchBytesAt {f g : ElfFile is64 E} {offset : BitVec 64} {newBytes : List Byte}
    (h : f.mutate (.patchBytesAt offset newBytes) = some g)
    : ∃ raw, g = { f with raw } ∧ raw.size = f.raw.size
        ∧ raw.toList
            =
          if offset.toNat + newBytes.length ≤ f.raw.size then
            splice f.raw.toList offset.toNat newBytes
          else
            f.raw.toList := by
  unfold mutate at h
  dsimp only at h
  split at h
  . next f' hpatch =>
    have ⟨raw, hwrite, hf'⟩ := (patchBytesAt_eq_ok_iff f f' offset newBytes).mp hpatch
    have ⟨hfits, hraw⟩ := (Bytes.write_eq_some_iff _ _ _ _).mp hwrite
    rw [← Option.some.inj h, if_pos hfits]
    refine ⟨raw, hf', ?_, hraw⟩
    unfold Bytes.size
    rw [hraw]
    apply length_splice _ _ _ hfits
  . next e hpatch =>
    refine ⟨f.raw, (Option.some.inj h).symm, rfl, ?_⟩
    rw [if_neg]
    intro hfits
    have hwrite : ∃ raw, f.raw.write offset.toNat newBytes = some raw := by
      unfold Bytes.write
      rw [dif_pos hfits]
      exact ⟨_, rfl⟩
    have ⟨raw, hraw⟩ := hwrite
    have hok := (patchBytesAt_eq_ok_iff f _ offset newBytes).mpr ⟨raw, hraw, rfl⟩
    rw [hpatch] at hok
    contradiction

/--
One step keeps the header and the tables apart.
-/
theorem act_separate {f g : ElfFile is64 E} {action : Action} (s : Separate f) (hroom : f.HasRoom action)
    (h : f.act action = some g)
    : Separate g := by
  cases action with
  | reload =>
    have ⟨out, hout, hg⟩ := act_reload s h
    rw [hg]
    apply s.of_raw (s.size_le_out hout)
  | edit mutation =>
    cases mutation with
    | setEntry addr =>
      rw [← Option.some.inj h]
      apply s.setEntry addr
    | patchBytesAt offset newBytes =>
      have ⟨raw, hg, hsize, _⟩ := mutate_patchBytesAt h
      rw [hg]
      apply s.of_raw (by omega)
    | addLoadSegment call =>
      have ⟨hcount, hphentsize, hwidth, _, _⟩ := hroom
      apply s.load h hcount hphentsize hwidth

/-
What each step does to the view.
-/

section Step

variable {f g : ElfFile is64 E} {v : View is64 E} (s : Separate f) (hshows : f.Shows v)
include hshows

theorem Shows.setEntry {addr : BitVec 64} (haddr : addr.toNat < 2 ^ wordBits is64)
    : (f.setEntry addr).Shows (stepView v (.edit (.setEntry addr))) := by
  have hphoff := e_phoff_setEntry f.header addr
  have hshoff := e_shoff_setEntry f.header addr
  constructor
  . apply e_entry_setEntry f.header addr haddr
  . exact hshows.shapes
  . exact hshows.sections
  . exact hshows.size
  . exact (congrArg BitVec.toNat hphoff).trans hshows.table
  . intro i b hb
    have ⟨houtside, hbyte⟩ := hshows.data i b hb
    refine ⟨?_, hbyte⟩
    unfold Outside ElfFile.setEntry
    dsimp only
    rw [hphoff, hshoff]
    exact houtside

theorem Shows.patchBytesAt {offset : BitVec 64} {newBytes : List Byte}
    (h : f.mutate (.patchBytesAt offset newBytes) = some g)
    : g.Shows (stepView v (.edit (.patchBytesAt offset newBytes))) := by
  have ⟨raw, hg, hsize, hraw⟩ := mutate_patchBytesAt h
  rw [hshows.size] at hsize hraw
  rw [hg]
  show Shows _ (v.patch offset.toNat newBytes)
  unfold View.patch
  split at hraw
  . next hfits =>
    rw [if_pos hfits]
    refine ⟨hshows.entry, hshows.shapes, hshows.sections, hsize, hshows.table, ?_⟩
    . intro i b hb
      have ⟨b', hb', heq⟩ := Option.map_eq_some_iff.mp hb
      have ⟨houtside, hbyte⟩ := hshows.data i b' hb'
      refine ⟨houtside, ?_⟩
      have hin : offset.toNat ≤ f.raw.toList.length := by
        show _ ≤ f.raw.size
        rw [hshows.size]
        omega
      rw [← heq]
      show raw.toList[i]? = _
      rw [hraw, getElem?_splice _ _ _ _ hin]
      split
      . next hmem =>
        rw [if_pos hmem.left, List.getD_eq_getElem?_getD, List.getElem?_eq_getElem (by omega),
          Option.getD_some]
      . next hmem =>
        rw [hbyte]
        split
        . rw [List.getD_eq_getElem?_getD, List.getElem?_eq_none (by omega), Option.getD_none]
        . rfl
  . next hfits =>
    rw [if_neg hfits]
    refine ⟨hshows.entry, hshows.shapes, hshows.sections, hsize, hshows.table, ?_⟩
    . intro i b hb
      have ⟨houtside, hbyte⟩ := hshows.data i b hb
      refine ⟨houtside, ?_⟩
      rw [← hbyte]
      exact congrArg (fun l => l[i]?) hraw

include s

theorem Shows.load {call : LoadSegment} (hroom : f.HasRoom (.edit (.addLoadSegment call)))
    (h : f.load call = some g)
    : g.Shows (stepView v (.edit (.addLoadSegment call))) := by
  have hshape := shape_nextPhdr hroom
  have ⟨_, _, hwidth, _, _⟩ := hroom
  have ⟨raw, hraw, hg⟩ := (addLoadSegment_eq_some_iff f g call).mp h
  rw [Bytes.append_eq_some_iff] at hraw
  have hsize : raw.size = f.raw.size + call.data.length := by
    unfold Bytes.size
    rw [hraw, List.length_append]
  have hval := toNat_ofNat_of_lt is64 raw.size (by omega)
  have hphoff : (f.header.withTable (BitVec.ofNat 64 raw.size)
      (BitVec.ofNat 16 (f.segments.length + 1))).e_phoff.toNat = raw.size := by
    rw [Ehdr.e_phoff_withTable _ _ _ (by omega), hval]
  have hfile := s.size
  have hfit := s.shdrs_fit
  rw [hg]
  constructor
  . exact (Ehdr.e_entry_withTable _ _ _).trans hshows.entry
  . show (f.segments ++ _).map _ = _
    rw [List.map_append, List.map_singleton, hshape, hshows.shapes, hshows.size]
    rfl
  . exact hshows.sections
  . show raw.size = v.size + _
    rw [hsize, hshows.size]
  . show _ = v.size + _
    rw [← hshows.size, ← hsize]
    exact hphoff
  . intro i b hb
    unfold stepView at hb
    dsimp only at hb
    rw [← hshows.size] at hb
    unfold Outside
    dsimp only
    rw [hphoff, Ehdr.e_shoff_withTable, hraw]
    split at hb
    . next hge =>
      have hin := (List.getElem?_eq_some_iff.mp hb).choose
      rw [List.getElem?_append_right hge]
      exact ⟨⟨by omega, by omega, by omega⟩, hb⟩
    . next hlt =>
      have ⟨⟨hheader, _, hshdrs⟩, hbyte⟩ := hshows.data i b hb
      rw [List.getElem?_append_left (by show _ < f.raw.size; omega)]
      exact ⟨⟨hheader, by omega, hshdrs⟩, hbyte⟩

theorem Shows.reload (h : f.act .reload = some g) : g.Shows (stepView v .reload) := by
  have ⟨out, hout, hg⟩ := act_reload s h
  rw [hg]
  refine ⟨hshows.entry, hshows.shapes, hshows.sections, ?_, hshows.table, ?_⟩
  . show out.size = max v.size (v.table + _)
    rw [s.size_out hout, hshows.size, hshows.table, ← hshows.shapes, List.length_map]
  . intro i b hb
    have ⟨houtside, hbyte⟩ := hshows.data i b hb
    refine ⟨houtside, ?_⟩
    rw [← hbyte]
    exact s.getElem?_out hout houtside.left houtside.right.left houtside.right.right

/--
One step does to the file what the session means.
-/
theorem Shows.act {action : Action} (hroom : f.HasRoom action) (h : f.act action = some g)
    : g.Shows (stepView v action) := by
  cases action with
  | reload => exact hshows.reload s h
  | edit mutation =>
    cases mutation with
    | setEntry addr =>
      rw [← Option.some.inj h]
      exact hshows.setEntry hroom
    | patchBytesAt offset newBytes => exact hshows.patchBytesAt h
    | addLoadSegment call => exact hshows.load s hroom h

end Step

theorem acts_run {f g : ElfFile is64 E} {v : View is64 E} {actions : List Action} (s : Separate f)
    (hshows : f.Shows v) (hroom : f.AllRoom actions) (h : f.acts actions = some g)
    : Separate g ∧ g.Shows (actions.foldl stepView v) := by
  induction actions generalizing f v with
  | nil =>
    rw [← Option.some.inj h]
    exact ⟨s, hshows⟩
  | cons action actions ih =>
    have ⟨f', hact, hrest⟩ := (acts_cons_eq_some_iff f g action actions).mp h
    have ⟨hfirst, hnext⟩ := hroom
    rw [List.foldl_cons]
    exact ih (act_separate s hfirst hact) (hshows.act s hfirst hact) (hnext f' hact) hrest

/--
The tables of a parsed file are apart from its header and from each other.
-/
structure TablesApart (f : ElfFile is64 E) : Prop where
  phdrs : f.segments.length = 0 ∨ (Ehdr.codec is64 E).size ≤ f.header.e_phoff.toNat
  shdrs : f.sections.length = 0 ∨ (Ehdr.codec is64 E).size ≤ f.header.e_shoff.toNat
  tables : f.segments.length = 0 ∨ f.sections.length = 0
    ∨ f.header.e_phoff.toNat + f.segments.length * (Phdr.codec is64 E).size ≤ f.header.e_shoff.toNat
    ∨ f.header.e_shoff.toNat + f.sections.length * (Shdr.codec is64 E).size ≤ f.header.e_phoff.toNat

theorem separate_of_parse {bytes : Bytes} {f : ElfFile is64 E} (h : parse is64 E bytes = .ok f)
    (hapart : f.TablesApart)
    : Separate f := by
  have ⟨hwf, hf⟩ := (parse_eq_ok_iff bytes f).mp h
  have hphdrs : f.segments.length = f.header.e_phnum.toNat := by
    rw [hf]
    apply Codec.length_decodeAll
  have hshdrs : f.sections.length = f.header.e_shnum.toNat := by
    rw [hf]
    apply Codec.length_decodeAll
  have hraw : f.raw = bytes := by
    rw [hf]
    rfl
  have hheader : f.header = headerOf is64 E bytes := by
    rw [hf]
    rfl
  have hphdrs_fit := hwf.phdrs_fit
  have hshdrs_fit := hwf.shdrs_fit
  rw [← hheader] at hphdrs_fit hshdrs_fit
  constructor
  . rw [hheader]
    exact ⟨hwf.magic, hwf.ident_class, hwf.ident_data, hwf.ehsize, hwf.phentsize, hwf.shentsize, hwf.shstrndx⟩
  . exact hphdrs.symm
  . exact hshdrs.symm
  . rw [hraw]
    exact hwf.size
  . rw [hraw]
    omega
  . rw [hraw, hshdrs]
    exact hshdrs_fit
  . exact hapart.phdrs
  . exact hapart.shdrs
  . exact hapart.tables

/--
`f` can be written unless it is too large, and what is written for it is `f` again. Only the bytes of the header
and of the tables are other ones.
-/
structure Reloads (f : ElfFile is64 E) : Prop where
  written : (∃ out, f.serialize = some out)
    ↔ max f.raw.size (f.header.e_phoff.toNat + f.segments.length * (Phdr.codec is64 E).size) ≤ maxSize
  parse : ∀ out, f.serialize = some out → parse is64 E out = .ok { f with raw := out }
  bytes : ∀ out, f.serialize = some out → ∀ i, (Ehdr.codec is64 E).size ≤ i →
    (i < f.header.e_phoff.toNat ∨ f.header.e_phoff.toNat + f.segments.length * (Phdr.codec is64 E).size ≤ i) →
    (i < f.header.e_shoff.toNat ∨ f.header.e_shoff.toNat + f.sections.length * (Shdr.codec is64 E).size ≤ i) →
    out.toList[i]? = f.raw.toList[i]?

theorem Separate.reloads {f : ElfFile is64 E} (s : Separate f) : Reloads f := by
  constructor
  . have hlen := s.length_withPhdrs
    simp only [s.serialize_eq_some_iff]
    rw [← hlen, ← s.length_withShdrs]
    constructor
    . intro ⟨out, hout⟩
      rw [← hout]
      exact out.size_le
    . intro hle
      exact ⟨⟨_, hle⟩, rfl⟩
  . intro out hout
    have ⟨hwf, hfile⟩ := s.fileOf_out hout
    rw [parse_of_wellFormed out hwf, hfile]
  . intro out hout i hheader hphdrs hshdrs
    apply s.getElem?_out hout hheader hphdrs hshdrs

/--
A session may save its file and load it again at any time: nothing that it says about the program changes by
that, and every load succeeds.
-/
theorem acts_reload (bytes : Bytes) (f g : ElfFile is64 E) (actions : List Action)
    (hparse : parse is64 E bytes = .ok f) (hapart : f.TablesApart) (hroom : f.AllRoom actions)
    (h : f.acts actions = some g)
    : g.Shows (actions.foldl stepView f.view) ∧ g.Reloads := by
  have ⟨s, hshows⟩ := acts_run (separate_of_parse hparse hapart) f.shows_view hroom h
  exact ⟨hshows, s.reloads⟩

section Examples

def reloadSession : List Action :=
  [.reload, .edit (.addLoadSegment fourBytes), .edit (.setEntry 0x10000), .reload,
    .edit (.patchBytesAt 0x41 [0x12]), .edit (.addLoadSegment { fourBytes with vaddr := 0x20000 }), .reload]

theorem isSome_acts_bareHeader : ((fileOf true .Big (bareHeader 56)).acts reloadSession).isSome = true := by
  decide +kernel

theorem acts_reload_bareHeader
    : ∃ g, (fileOf true .Big (bareHeader 56)).acts reloadSession = some g
        ∧ g.Shows (reloadSession.foldl stepView (fileOf true .Big (bareHeader 56)).view) ∧ g.Reloads := by
  have ⟨g, hg⟩ := Option.isSome_iff_exists.mp isSome_acts_bareHeader
  refine ⟨g, hg, acts_reload (bareHeader 56) _ g _ (parse_of_wellFormed _ wellFormed_bareHeader_56) ?_ ?_ hg⟩
  . constructor <;> decide +kernel
  . decide +kernel

end Examples

end ElfFile

end Elf
end ElfCraft
