import ElfCraft.Ps3patch.Info
import ElfCraft.Ps3patch.Lemmas.Trampoline

/-!
This module contains the relation of the inspection report to the file it describes: what it shows, that
no buffer cuts it, and that what it shows can be read back from it.
-/

namespace ElfCraft
namespace Ps3patch

open Elf Text detail

/--
What a line of the report shows of a program header. The other bits of its flags do not appear.
-/
structure SegmentShown where
  p_type : BitVec 32
  readable : Bool
  writable : Bool
  executable : Bool
  p_vaddr : BitVec 64
  p_offset : BitVec 64
  p_filesz : BitVec 64
  p_memsz : BitVec 64
  deriving DecidableEq

structure InfoShown where
  e_machine : BitVec 16
  e_type : BitVec 16
  e_flags : BitVec 32
  e_entry : BitVec 64
  descriptor : EntryDescriptor
  patched : Bool
  segments : List SegmentShown
  deriving DecidableEq

def segmentShown (ph : Phdr true .Big) : SegmentShown where
  p_type := ph.p_type
  readable := ph.p_flags &&& PF_R ≠ 0
  writable := ph.p_flags &&& PF_W ≠ 0
  executable := ph.p_flags &&& PF_X ≠ 0
  p_vaddr := ph.p_vaddr
  p_offset := ph.p_offset
  p_filesz := ph.p_filesz
  p_memsz := ph.p_memsz

def infoShown (file : Ps3ElfFile) (entry : EntryDescriptor) : InfoShown where
  e_machine := file.header.e_machine
  e_type := file.header.e_type
  e_flags := file.header.e_flags
  e_entry := file.entry
  descriptor := entry
  patched := isAlreadyPatched file
  segments := file.segments.map segmentShown

section Text

/-
The text without the buffers of the source.
-/

def hexText (n : Nat) : String := "0x" ++ hexDigits n

def typeText (type : BitVec 32) : String :=
  if type = PT_NULL then "NULL"
  else if type = PT_LOAD then "LOAD"
  else if type = PT_DYNAMIC then "DYNAMIC"
  else if type = PT_INTERP then "INTERP"
  else if type = PT_NOTE then "NOTE"
  else hexText type.toNat

def flagsText (shown : SegmentShown) : String :=
  (if shown.readable then "R" else "-") ++ (if shown.writable then "W" else "-") ++
    (if shown.executable then "X" else "-")

def rowText (idx : Nat) (shown : SegmentShown) : String :=
  "  " ++ leftAligned 3 (toString idx) ++ " " ++ leftAligned 9 (typeText shown.p_type) ++ " " ++
    leftAligned 6 (flagsText shown) ++ " " ++ leftAligned 18 (hexText shown.p_vaddr.toNat) ++ " " ++
    leftAligned 18 (hexText shown.p_offset.toNat) ++ " " ++
    leftAligned 11 (hexText shown.p_filesz.toNat) ++ " " ++ hexText shown.p_memsz.toNat ++ "\n"

def rowsText (idx : Nat) (rows : List SegmentShown) : String :=
  match rows with
  | [] => ""
  | shown :: rows => rowText idx shown ++ rowsText (idx + 1) rows

def flagsNote (e_flags : BitVec 32) : String :=
  if e_flags = 0 then "" else
    "                (unusual -- real PS3 EBOOTs observed so far all have e_flags == 0x0; " ++
      "this doesn't necessarily mean the file is invalid, just that it differs from what " ++
      "this tool has empirically seen)\n"

def reportText (shown : InfoShown) : String :=
  "=== ELF Header ===\n" ++
  "  Class:        ELF64\n" ++
  "  Data:         big-endian\n" ++
  ("  Machine:      EM_PPC64 (" ++ toString shown.e_machine.toNat ++ ")\n") ++
  ("  Type:         " ++ toString shown.e_type.toNat ++ "\n") ++
  ("  Flags:        " ++ hexText shown.e_flags.toNat ++ "\n") ++
  flagsNote shown.e_flags ++
  ("  Entry (raw):  " ++ hexText shown.e_entry.toNat ++ "  (OPD descriptor address, not code)\n") ++
  "\n" ++
  "=== Entry Function Descriptor (OPD) ===\n" ++
  ("  Code address: " ++ hexText shown.descriptor.codeAddress.toNat ++ "\n") ++
  ("  TOC value:    " ++ hexText shown.descriptor.tocValue.toNat ++ "\n") ++
  ("  Env pointer:  " ++ hexText shown.descriptor.envPointer.toNat ++ "\n") ++
  "\n" ++
  "=== ps3patch status ===\n" ++
  ("  Already patched by ps3patch: " ++ (if shown.patched then "YES" else "no") ++ "\n") ++
  "\n" ++
  ("=== Program Headers (" ++ toString shown.segments.length ++ ") ===\n") ++
  "  #   Type      Flags  VirtAddr            Offset              FileSz      MemSz\n" ++
  rowsText 0 shown.segments ++
  "\n" ++
  "=== Syscalls ps3patch's trampoline uses ===\n" ++
  ("  " ++ toString SYS_PRX_LOAD_MODULE.toNat ++ "  sys_prx_load_module\n") ++
  ("  " ++ toString SYS_PRX_START_MODULE.toNat ++ "  sys_prx_start_module\n") ++
  "  (syscall number passed in r11, per LV2 convention, confirmed on real hardware)\n"

end Text

section Buffers

theorem length_hexText_le {n k : Nat} (hk : 0 < k) (h : n < 16 ^ k) : (hexText n).length ≤ k + 2 := by
  have := (Nat.length_toDigits_le_iff (b := 16) (by decide) hk).mpr h
  simp only [hexText, hexDigits, String.length_append, String.length_ofList]
  have : ("0x" : String).length = 2 := rfl
  omega

theorem length_hexText_toNat (v : BitVec 64) : (hexText v.toNat).length ≤ 18 := by
  apply length_hexText_le (k := 16) (by decide)
  have := v.isLt
  omega

theorem hex_eq (v : BitVec 64) : hex v = hexText v.toNat := by
  have := length_hexText_toNat v
  apply buffered_of_lt
  apply Nat.lt_of_le_of_lt this
  decide

theorem length_hexText_type (type : BitVec 32) : (hexText type.toNat).length ≤ 10 := by
  apply length_hexText_le (k := 8) (by decide)
  have := type.isLt
  omega

theorem segmentTypeToString_eq (type : BitVec 32) : segmentTypeToString type = typeText type := by
  have := length_hexText_type type
  have : buffered 16 ("0x" ++ hexDigits type.toNat) = hexText type.toNat := by
    apply buffered_of_lt
    apply Nat.lt_of_le_of_lt this
    decide
  unfold segmentTypeToString typeText
  rw [this]

theorem length_typeText_le (type : BitVec 32) : (typeText type).length ≤ 10 := by
  have := length_hexText_type type
  unfold typeText
  split_ifs
  . decide
  . decide
  . decide
  . decide
  . decide
  . assumption

theorem length_flagsText (shown : SegmentShown) : (flagsText shown).length = 3 := by
  unfold flagsText
  split_ifs <;> rfl

theorem length_toString_le {n k : Nat} (hk : 0 < k) (h : n < 10 ^ k) : (toString n).length ≤ k := by
  rw [Nat.toString_eq_repr]
  apply (Nat.length_repr_le_iff hk).mpr h

theorem length_rowText (idx : Nat) (shown : SegmentShown)
    : (rowText idx shown).length
        =
      2 + max 3 (toString idx).length + 1 + max 9 (typeText shown.p_type).length + 1 +
        max 6 (flagsText shown).length + 1 + max 18 (hexText shown.p_vaddr.toNat).length + 1 +
        max 18 (hexText shown.p_offset.toNat).length + 1 +
        max 11 (hexText shown.p_filesz.toNat).length + 1 + (hexText shown.p_memsz.toNat).length + 1 := by
  have hend : ("\n" : String).length = 1 := rfl
  have hgap : (" " : String).length = 1 := rfl
  have hindent : ("  " : String).length = 2 := rfl
  unfold rowText
  simp only [String.length_append, length_leftAligned]
  rw [hend, hgap, hindent]

/--
The widest line has 20 digits of a `size_t` and 18 characters for each address and size.
-/
theorem length_rowText_lt {idx : Nat} (h : idx < 2 ^ 64) (shown : SegmentShown)
    : (rowText idx shown).length < 256 := by
  have width {i type flags vaddr offset filesz memsz : Nat} (hi : i ≤ 20) (htype : type ≤ 10)
      (hflags : flags ≤ 6) (hvaddr : vaddr ≤ 18) (hoffset : offset ≤ 18) (hfilesz : filesz ≤ 18)
      (hmemsz : memsz ≤ 18)
      : 2 + i + 1 + type + 1 + flags + 1 + vaddr + 1 + offset + 1 + filesz + 1 + memsz + 1 < 256 := by
    omega
  have hidx : (toString idx).length ≤ 20 := by
    apply length_toString_le (by decide)
    apply Nat.lt_of_lt_of_le h
    decide
  rw [length_rowText]
  apply width
  . apply Nat.max_le.mpr ⟨by decide, hidx⟩
  . apply Nat.max_le.mpr ⟨by decide, length_typeText_le _⟩
  . apply Nat.max_le.mpr ⟨by decide, by rw [length_flagsText]; decide⟩
  . apply Nat.max_le.mpr ⟨by decide, length_hexText_toNat _⟩
  . apply Nat.max_le.mpr ⟨by decide, length_hexText_toNat _⟩
  . apply Nat.max_le.mpr ⟨by decide, length_hexText_toNat _⟩
  . apply length_hexText_toNat

theorem segmentFlagsToString_eq (ph : Phdr true .Big)
    : segmentFlagsToString ph.p_flags = flagsText (segmentShown ph) := by
  simp only [segmentFlagsToString, flagsText, segmentShown, decide_eq_true_eq]

theorem segmentLine_eq {idx : Nat} (h : idx < 2 ^ 64) (ph : Phdr true .Big)
    : segmentLine idx ph = rowText idx (segmentShown ph) := by
  unfold segmentLine
  rw [segmentTypeToString_eq, segmentFlagsToString_eq, hex_eq, hex_eq, hex_eq, hex_eq]
  change buffered 256 (rowText idx (segmentShown ph)) = rowText idx (segmentShown ph)
  apply buffered_of_lt
  apply length_rowText_lt h

theorem segmentLines.go_eq {idx : Nat} {segments : List (Phdr true .Big)}
    (h : idx + segments.length ≤ 2 ^ 64)
    : segmentLines.go idx segments = rowsText idx (segments.map segmentShown) := by
  induction segments generalizing idx with
  | nil => rfl
  | cons ph segments ih =>
    rw [List.length_cons] at h
    rw [segmentLines.go, List.map_cons, rowsText, segmentLine_eq (by omega), ih (by omega)]

theorem formatInfo_of_entry {file : Ps3ElfFile} {entry : EntryDescriptor} (hsize : file.segments.length ≤ 2 ^ 64)
    (h : resolveEntryDescriptor file = .ok entry)
    : formatInfo file = .ok (reportText (infoShown file entry)) := by
  have hlines : segmentLines file.segments = rowsText 0 (file.segments.map segmentShown) := by
    apply segmentLines.go_eq
    omega
  have hnote : (if hasTypicalEFlags file then "" else
      "                (unusual -- real PS3 EBOOTs observed so far all have e_flags == 0x0; " ++
        "this doesn't necessarily mean the file is invalid, just that it differs from what " ++
        "this tool has empirically seen)\n") = flagsNote file.header.e_flags := by
    simp only [hasTypicalEFlags, flagsNote, beq_iff_eq]
  have hflags : (file.header.e_flags.setWidth 64).toNat = file.header.e_flags.toNat := by
    apply BitVec.toNat_setWidth_of_le
    decide
  unfold formatInfo reportText infoShown
  rw [h]
  dsimp only
  rw [hlines, hnote, hex_eq, hex_eq, hex_eq, hex_eq, hex_eq, hflags, List.length_map]

/--
The report is the text of what it shows, whatever the widths of the fields: none of the buffers of 16, 24
and 256 characters cuts it.
-/
theorem formatInfo_eq_report (file : Ps3ElfFile) (hsize : file.segments.length ≤ 2 ^ 64)
    : formatInfo file
        =
      (resolveEntryDescriptor file).map (fun entry => reportText (infoShown file entry)) := by
  cases h : resolveEntryDescriptor file with
  | error e =>
    unfold formatInfo
    rw [h]
    rfl
  | ok entry => exact formatInfo_of_entry hsize h

theorem formatInfo_eq_report_plainSample
    : formatInfo (ElfFile.fileOf true .Big plainSample)
        =
      (resolveEntryDescriptor (ElfFile.fileOf true .Big plainSample)).map
        (fun entry => reportText (infoShown (ElfFile.fileOf true .Big plainSample) entry)) := by
  apply formatInfo_eq_report (ElfFile.fileOf true .Big plainSample)
  decide +kernel

end Buffers

section Read

/-
What the report shows can be read back from it.
-/

theorem hexText_injective {n m : Nat} (h : hexText n = hexText m) : n = m := by
  unfold hexText hexDigits at h
  rw [String.append_right_inj, String.ofList_inj] at h
  apply toDigits_injective (by decide) (by decide) h

theorem free_hexText {c : Char} (hc : c ∉ "0x123456789abcdef".toList) (n : Nat) : Free c (hexText n) := by
  have hfront : ∀ d ∈ "0x".toList, d ∈ "0x123456789abcdef".toList := by
    simp
  have hdigit : ∀ d ∈ "0123456789abcdef".toList, d ∈ "0x123456789abcdef".toList := by
    simp
  intro hmem
  apply hc
  rw [hexText, String.toList_append, List.mem_append] at hmem
  cases hmem with
  | inl h => apply hfront c h
  | inr h =>
    apply hdigit
    rw [hexDigits, String.toList_ofList] at h
    apply mem_toDigits (b := 16) (by decide) (by decide) h

theorem free_toString {c : Char} (hc : c ∉ "0123456789abcdef".toList) (n : Nat) : Free c (toString n) := by
  intro hmem
  apply hc
  rw [Nat.toString_eq_ofList_toDigits, String.toList_ofList] at hmem
  apply mem_toDigits (b := 10) (by decide) (by decide) hmem

theorem toString_injective {n m : Nat} (h : toString n = toString m) : n = m := by
  rw [Nat.toString_eq_ofList_toDigits, Nat.toString_eq_ofList_toDigits, String.ofList_inj] at h
  apply toDigits_injective (by decide) (by decide) h

theorem toNat_toString_injective {w : Nat} {v v' : BitVec w} (h : toString v.toNat = toString v'.toNat)
    : v = v' := by
  apply BitVec.eq_of_toNat_eq
  apply toString_injective h

theorem toNat_hexText_injective {w : Nat} {v v' : BitVec w} (h : hexText v.toNat = hexText v'.toNat)
    : v = v' := by
  apply BitVec.eq_of_toNat_eq
  apply hexText_injective h

def namedTypes : List (BitVec 32 × String) :=
  [(PT_NULL, "NULL"), (PT_LOAD, "LOAD"), (PT_DYNAMIC, "DYNAMIC"), (PT_INTERP, "INTERP"), (PT_NOTE, "NOTE")]

theorem typeText_cases (type : BitVec 32)
    : (type, typeText type) ∈ namedTypes
        ∨
      (typeText type = hexText type.toNat ∧ ∀ named ∈ namedTypes, named.1 ≠ type) := by
  unfold typeText
  split_ifs with hnull hload hdynamic hinterp hnote
  . subst hnull; decide
  . subst hload; decide
  . subst hdynamic; decide
  . subst hinterp; decide
  . subst hnote; decide
  . apply Or.inr
    constructor
    . rfl
    . intro named hnamed
      simp only [namedTypes, List.mem_cons, List.not_mem_nil, or_false] at hnamed
      rcases hnamed with h | h | h | h | h <;> (rw [h]; apply Ne.symm; assumption)

theorem typeText_injective {type type' : BitVec 32} (h : typeText type = typeText type') : type = type' := by
  -- A name does not start with a digit.
  have hletter : ∀ named ∈ namedTypes, ¬ named.2.toList.head? = some '0' := by
    decide
  have hname (n : Nat) : ∀ named ∈ namedTypes, named.2 ≠ hexText n := by
    intro named hnamed heq
    have hstart : Starts '0' (hexText n) := by
      apply Starts.append
      decide
    rw [← heq] at hstart
    apply hletter named hnamed hstart
  have hnames : ∀ named ∈ namedTypes, ∀ named' ∈ namedTypes, named.2 = named'.2 → named.1 = named'.1 := by
    decide
  cases typeText_cases type with
  | inl hmem =>
    cases typeText_cases type' with
    | inl hmem' => exact hnames _ hmem _ hmem' h
    | inr hhex =>
      have := hname type'.toNat _ hmem
      rw [h] at this
      exact absurd hhex.1 this
  | inr hhex =>
    cases typeText_cases type' with
    | inl hmem' =>
      have := hname type.toNat _ hmem'
      rw [← h] at this
      exact absurd hhex.1 this
    | inr hhex' =>
      rw [hhex.1, hhex'.1] at h
      exact toNat_hexText_injective h

theorem free_typeText (type : BitVec 32) : Free ' ' (typeText type) := by
  have hnames : ∀ named ∈ namedTypes, ' ' ∉ named.2.toList := by
    decide
  cases typeText_cases type with
  | inl hmem => apply hnames _ hmem
  | inr hhex =>
    rw [hhex.1]
    apply free_hexText (by decide)

theorem free_flagsText (shown : SegmentShown) : Free ' ' (flagsText shown) := by
  unfold Free flagsText
  split_ifs <;> decide

theorem flagsText_inj {a b : SegmentShown} (h : flagsText a = flagsText b)
    : a.readable = b.readable ∧ a.writable = b.writable ∧ a.executable = b.executable := by
  have hflags : ∀ r w x r' w' x' : Bool,
      ((if r then "R" else "-") ++ (if w then "W" else "-") ++ (if x then "X" else "-")
        =
      (if r' then "R" else "-") ++ (if w' then "W" else "-") ++ (if x' then "X" else "-"))
      → r = r' ∧ w = w' ∧ x = x' := by
    decide
  exact hflags _ _ _ _ _ _ h

theorem starts_gap (text : String) : Starts ' ' (" " ++ text) := by
  apply Starts.append
  decide

theorem starts_newline (text : String) : Starts '\n' ("\n" ++ text) := by
  apply Starts.append
  decide

theorem rowText_inj {idx : Nat} {a b : SegmentShown} {x y : String}
    (h : rowText idx a ++ x = rowText idx b ++ y)
    : a = b ∧ x = y := by
  have free (n : Nat) : Free ' ' (hexText n) := free_hexText (by decide) n
  unfold rowText at h
  simp only [String.append_assoc] at h
  rw [String.append_right_inj, String.append_right_inj, String.append_right_inj] at h
  have ⟨htype, h⟩ := leftAligned_inj (free_typeText _) (free_typeText _) (starts_gap _) (starts_gap _) h
  rw [String.append_right_inj] at h
  have ⟨hflags, h⟩ := leftAligned_inj (free_flagsText _) (free_flagsText _) (starts_gap _) (starts_gap _) h
  rw [String.append_right_inj] at h
  have ⟨hvaddr, h⟩ := leftAligned_inj (free _) (free _) (starts_gap _) (starts_gap _) h
  rw [String.append_right_inj] at h
  have ⟨hoffset, h⟩ := leftAligned_inj (free _) (free _) (starts_gap _) (starts_gap _) h
  rw [String.append_right_inj] at h
  have ⟨hfilesz, h⟩ := leftAligned_inj (free _) (free _) (starts_gap _) (starts_gap _) h
  rw [String.append_right_inj] at h
  have ⟨hmemsz, h⟩ := token_inj (free_hexText (by decide) _) (free_hexText (by decide) _)
    (starts_newline _) (starts_newline _) h
  rw [String.append_right_inj] at h
  have ⟨hreadable, hwritable, hexecutable⟩ := flagsText_inj hflags
  constructor
  . cases a
    cases b
    simp only [SegmentShown.mk.injEq]
    exact ⟨typeText_injective htype, hreadable, hwritable, hexecutable, toNat_hexText_injective hvaddr,
      toNat_hexText_injective hoffset, toNat_hexText_injective hfilesz, toNat_hexText_injective hmemsz⟩
  . exact h

theorem rowsText_inj {idx : Nat} {rows rows' : List SegmentShown} {x y : String}
    (hlen : rows.length = rows'.length) (h : rowsText idx rows ++ x = rowsText idx rows' ++ y)
    : rows = rows' ∧ x = y := by
  induction rows generalizing idx rows' with
  | nil =>
    cases rows' with
    | nil =>
      rw [String.append_right_inj] at h
      exact ⟨rfl, h⟩
    | cons shown' rows' => simp at hlen
  | cons shown rows ih =>
    cases rows' with
    | nil => simp at hlen
    | cons shown' rows' =>
      unfold rowsText at h
      rw [String.append_assoc, String.append_assoc] at h
      have ⟨hshown, h⟩ := rowText_inj h
      have ⟨hrows, h⟩ := ih (by simpa using hlen) h
      exact ⟨by rw [hshown, hrows], h⟩

theorem reportText_injective {shown shown' : InfoShown} (h : reportText shown = reportText shown')
    : shown = shown' := by
  have free (n : Nat) : Free '\n' (hexText n) := free_hexText (by decide) n
  have hstatus : ∀ p q : Bool, (if p then "YES" else "no") = (if q then "YES" else "no") → p = q := by
    decide
  have gap (n : Nat) : Free ' ' (hexText n) := free_hexText (by decide) n
  have word : ∀ p : Bool, Free '\n' (if p then "YES" else "no") := by
    decide
  unfold reportText at h
  simp only [String.append_assoc, String.append_right_inj] at h
  have ⟨hmachine, h⟩ := token_inj (free_toString (c := ')') (by decide) _)
    (free_toString (by decide) _) (Starts.append (by decide) _) (Starts.append (by decide) _) h
  simp only [String.append_right_inj] at h
  have ⟨htype, h⟩ := token_inj (free_toString (by decide) _) (free_toString (by decide) _)
    (starts_newline _) (starts_newline _) h
  simp only [String.append_right_inj] at h
  have ⟨hflags, h⟩ := token_inj (free _) (free _) (starts_newline _) (starts_newline _) h
  rw [toNat_hexText_injective hflags] at h
  simp only [String.append_right_inj] at h
  have ⟨hentry, h⟩ := token_inj (gap _) (gap _) (Starts.append (by decide) _)
    (Starts.append (by decide) _) h
  simp only [String.append_right_inj] at h
  have ⟨hcode, h⟩ := token_inj (free _) (free _) (starts_newline _) (starts_newline _) h
  simp only [String.append_right_inj] at h
  have ⟨htoc, h⟩ := token_inj (free _) (free _) (starts_newline _) (starts_newline _) h
  simp only [String.append_right_inj] at h
  have ⟨henv, h⟩ := token_inj (free _) (free _) (starts_newline _) (starts_newline _) h
  simp only [String.append_right_inj] at h
  have ⟨hpatched, h⟩ := token_inj (word _) (word _) (starts_newline _) (starts_newline _) h
  simp only [String.append_right_inj] at h
  have ⟨hlen, h⟩ := token_inj (free_toString (c := ')') (by decide) _)
    (free_toString (by decide) _) (Starts.append (by decide) _) (Starts.append (by decide) _) h
  simp only [String.append_right_inj] at h
  have ⟨hrows, _⟩ := rowsText_inj (toString_injective hlen) h
  cases shown with
  | mk e_machine e_type e_flags e_entry descriptor patched segments =>
    cases shown' with
    | mk e_machine' e_type' e_flags' e_entry' descriptor' patched' segments' =>
      cases descriptor
      cases descriptor'
      simp only [InfoShown.mk.injEq, EntryDescriptor.mk.injEq]
      exact ⟨toNat_toString_injective hmachine, toNat_toString_injective htype,
        toNat_hexText_injective hflags, toNat_hexText_injective hentry,
        ⟨toNat_hexText_injective hcode, toNat_hexText_injective htoc, toNat_hexText_injective henv⟩,
        hstatus _ _ hpatched, hrows⟩

/--
The report of a file tells its machine, type, flags, entry, descriptor and status and the shown fields of
each of its program headers, and it tells nothing else.
-/
theorem formatInfo_eq_iff (f g : Ps3ElfFile) (entry entry' : EntryDescriptor)
    (hf : f.segments.length ≤ 2 ^ 64) (hg : g.segments.length ≤ 2 ^ 64)
    (hentry : resolveEntryDescriptor f = .ok entry) (hentry' : resolveEntryDescriptor g = .ok entry')
    : formatInfo f = formatInfo g ↔ infoShown f entry = infoShown g entry' := by
  rw [formatInfo_of_entry hf hentry, formatInfo_of_entry hg hentry']
  rw [Except.ok.injEq]
  constructor
  . apply reportText_injective
  . intro h
    rw [h]

def twoSample : Binary.Bytes := ⟨sample [(0x10000, 0x1000), (0x20000, 0x1000)] 0, by decide +kernel⟩

theorem formatInfo_eq_iff_samples
    : formatInfo (ElfFile.fileOf true .Big plainSample) = formatInfo (ElfFile.fileOf true .Big twoSample)
        ↔
      infoShown (ElfFile.fileOf true .Big plainSample) ⟨0x10080, 0x30000, 0⟩
        = infoShown (ElfFile.fileOf true .Big twoSample) ⟨0x100B8, 0x30000, 0⟩ := by
  apply formatInfo_eq_iff
  . decide +kernel
  . decide +kernel
  . decide +kernel
  . decide +kernel

end Read

end Ps3patch
end ElfCraft
