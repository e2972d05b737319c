import ElfCraft.Ppc.Lemmas.Branch

/-!
This module contains the round trips of the encoders that can throw: which operands they refuse, and
that neither the operands nor the words of the others lose anything on the way through the decoder.
-/

namespace ElfCraft
namespace Ppc

open Binary detail

theorem exists_error_iff {x : Except InvalidArgument Instruction} {p : Prop} {word : Instruction}
    (h : ∀ w, x = .ok w ↔ p ∧ w = word)
    : (∃ e, x = .error e) ↔ ¬ p := by
  cases x with
  | error e =>
    have hnot : ¬ p := fun hp => nomatch (h word).mpr ⟨hp, rfl⟩
    simp [hnot]
  | ok w =>
    have hp := ((h w).mp rfl).left
    simp [hp]

/-
The direct branches.
-/

namespace DecodedBranch

/--
A branch to `target` as the classifier reports it: the kind says which of its two fields holds the
target.
-/
def ofTarget (target : BitVec 32) (absolute link : Bool) : DecodedBranch :=
  if absolute then
    { kind := .DirectAbsolute, link := link, absoluteTarget := target }
  else
    { kind := .DirectRelative, link := link, displacement := target }

def target (branch : DecodedBranch) : BitVec 32 :=
  if branch.kind = .DirectAbsolute then branch.absoluteTarget else branch.displacement

/--
Hand what the classifier reports about a direct branch to the encoder of its form.
-/
def reencode (branch : DecodedBranch) : Except InvalidArgument Instruction :=
  if branch.isConditionalForm then
    encodeBranchConditional branch.bo branch.bi branch.target (branch.kind = .DirectAbsolute) branch.link
  else
    encodeBranch branch.target (branch.kind = .DirectAbsolute) branch.link

theorem reencode_ofTarget (target : BitVec 32) (absolute link : Bool)
    : (ofTarget target absolute link).reencode = encodeBranch target absolute link := by
  cases absolute <;> rfl

theorem reencode_ofTarget_conditional (bo bi target : BitVec 32) (absolute link : Bool)
    : { ofTarget target absolute link with isConditionalForm := true, bo := bo, bi := bi }.reencode
        =
      encodeBranchConditional bo bi target absolute link := by
  cases absolute <;> rfl

end DecodedBranch

theorem Insn.decoded_b (li : BitVec 24) (aa lk : Bool)
    : (Insn.b li aa lk).decoded = .ofTarget ((li ++ 0#2).signExtend 32) aa lk := by
  rfl

theorem Insn.decoded_bc (bo bi : BitVec 5) (bd : BitVec 14) (aa lk : Bool)
    : (Insn.bc bo bi bd aa lk).decoded
        =
      { DecodedBranch.ofTarget ((bd ++ 0#2).signExtend 32) aa lk with
        isConditionalForm := true, bo := bo.setWidth 32, bi := bi.setWidth 32 } := by
  cases aa <;> rfl

theorem Fits.signExtend_32 {n : Nat} {target : BitVec 32} (h : Fits (n + 2) target.toInt) (hn : n + 2 ≤ 32)
    : (target.extractLsb' 2 n ++ 0#2).signExtend 32 = target := by
  have hdisp := h.signExtend_append_zero (W := 32) n rfl hn hn
  rw [BitVec.ofInt_toInt] at hdisp
  exact hdisp

-- A target that was read out of a word fits its field again.
theorem Fits.of_field {n : Nat} (x : BitVec n) (hpos : 0 < n) (hn : n + 2 ≤ 32)
    : Fits (n + 2) ((x ++ 0#2).signExtend 32).toInt := by
  have hlower := BitVec.le_toInt x
  have hupper := BitVec.toInt_lt (x := x)
  have hpow : (2 : Int) ^ (n + 2 - 1) = 4 * 2 ^ (n - 1) := by
    rw [show n + 2 - 1 = n - 1 + 2 by omega, Int.pow_add]
    omega
  rw [BitVec.toInt_signExtend_of_le hn, BitVec.toInt_append_zero]
  constructor
  . apply Int.dvd_mul_right
  . omega
  . omega

theorem classify_of_encodeBranch {target : BitVec 32} {absolute link : Bool} {w : Instruction}
    (h : encodeBranch target absolute link = .ok w)
    : classify w = .ofTarget target absolute link := by
  rw [encodeBranch_eq_ok_iff] at h
  rw [h.right, classify_of_decode (decode_iForm _ _ _), Insn.decoded_b, h.left.signExtend_32 (by decide)]

theorem classify_of_encodeBranchConditional {bo bi : BitVec 5} {target : BitVec 32} {absolute link : Bool}
    {w : Instruction}
    (h : encodeBranchConditional (bo.setWidth 32) (bi.setWidth 32) target absolute link = .ok w)
    : classify w
        =
      { DecodedBranch.ofTarget target absolute link with
        isConditionalForm := true, bo := bo.setWidth 32, bi := bi.setWidth 32 } := by
  rw [encodeBranchConditional_eq_ok_iff] at h
  rw [h.right, classify_of_decode (decode_bForm _ _ _ _ _), Insn.decoded_bc, h.left.signExtend_32 (by decide),
    extractLsb'_setWidth_self _ (by decide), extractLsb'_setWidth_self _ (by decide)]

section Reencode

variable {w : Instruction}

theorem decode_of_opcode_18 (h : w.extractLsb' 26 6 = 18#6)
    : decode w = some (.b (w.extractLsb' 2 24) (w.getLsbD 1) (w.getLsbD 0)) := by
  simp [decode, h]

theorem decode_of_opcode_16 (h : w.extractLsb' 26 6 = 16#6)
    : decode w
        =
      some (.bc (w.extractLsb' 21 5) (w.extractLsb' 16 5) (w.extractLsb' 2 14) (w.getLsbD 1) (w.getLsbD 0)) := by
  simp [decode, h]

-- The two flags and the displacement field of both forms.
theorem extractLsb'_eq_of_flags {x y : Instruction} {n : Nat} (hlk : x.getLsbD 0 = y.getLsbD 0)
    (haa : x.getLsbD 1 = y.getLsbD 1) (hfield : x.extractLsb' 2 n = y.extractLsb' 2 n)
    : x.extractLsb' 0 (n + (1 + 1)) = y.extractLsb' 0 (n + (1 + 1)) := by
  apply extractLsb'_eq_of_parts
  . apply extractLsb'_eq_of_parts
    . apply extractLsb'_one_eq hlk
    . apply extractLsb'_one_eq haa
  . exact hfield

theorem iForm_of_field (hop : w.extractLsb' 26 6 = 18#6) (target : BitVec 32)
    (hli : target.extractLsb' 2 24 = w.extractLsb' 2 24)
    : iForm target (w.getLsbD 1) (w.getLsbD 0) = w := by
  apply eq_of_extractLsb'_zero_eq
  apply extractLsb'_eq_of_parts (n := 26) (m := 6)
  . apply extractLsb'_eq_of_flags (n := 24)
    . apply lk_iForm
    . apply aa_iForm
    . rw [li_iForm, hli]
  . rw [Nat.zero_add, opcode_iForm, hop]

theorem bForm_of_field (hop : w.extractLsb' 26 6 = 16#6) (bo bi target : BitVec 32)
    (hbo : bo.extractLsb' 0 5 = w.extractLsb' 21 5) (hbi : bi.extractLsb' 0 5 = w.extractLsb' 16 5)
    (hbd : target.extractLsb' 2 14 = w.extractLsb' 2 14)
    : bForm bo bi target (w.getLsbD 1) (w.getLsbD 0) = w := by
  apply eq_of_extractLsb'_zero_eq
  apply extractLsb'_eq_of_parts (n := 26) (m := 6)
  . apply extractLsb'_eq_of_parts (n := 21) (m := 5)
    . apply extractLsb'_eq_of_parts (n := 16) (m := 5)
      . apply extractLsb'_eq_of_flags (n := 14)
        . apply lk_bForm
        . apply aa_bForm
        . rw [bd_bForm, hbd]
      . rw [Nat.zero_add, bi_bForm, hbi]
    . rw [Nat.zero_add, bo_bForm, hbo]
  . rw [Nat.zero_add, opcode_bForm, hop]

theorem reencode_of_opcode_18 (h : w.extractLsb' 26 6 = 18#6) : (classify w).reencode = .ok w := by
  rw [classify_of_decode (decode_of_opcode_18 h), Insn.decoded_b, DecodedBranch.reencode_ofTarget,
    encodeBranch_eq_ok_iff]
  constructor
  . apply Fits.of_field
    . decide
    . decide
  . symm
    apply iForm_of_field h
    apply extractLsb'_signExtend_append_zero
    decide

theorem reencode_of_opcode_16 (h : w.extractLsb' 26 6 = 16#6) : (classify w).reencode = .ok w := by
  rw [classify_of_decode (decode_of_opcode_16 h), Insn.decoded_bc,
    DecodedBranch.reencode_ofTarget_conditional, encodeBranchConditional_eq_ok_iff]
  constructor
  . apply Fits.of_field
    . decide
    . decide
  . symm
    apply bForm_of_field h
    . apply extractLsb'_setWidth_self
      decide
    . apply extractLsb'_setWidth_self
      decide
    . apply extractLsb'_signExtend_append_zero
      decide

end Reencode

/--
The branch encoders and the classifier are inverse to each other, the encoders throw for nothing but a
target that their field does not hold.
-/
structure BranchesInverse : Prop where
  error : ∀ (target : BitVec 32) (absolute link : Bool),
    (∃ e, encodeBranch target absolute link = .error e) ↔ ¬ Fits 26 target.toInt
  errorConditional : ∀ (bo bi : BitVec 5) (target : BitVec 32) (absolute link : Bool),
    (∃ e, encodeBranchConditional (bo.setWidth 32) (bi.setWidth 32) target absolute link = .error e)
      ↔ ¬ Fits 16 target.toInt
  decoded : ∀ (target : BitVec 32) (absolute link : Bool) (w : Instruction),
    encodeBranch target absolute link = .ok w → classify w = .ofTarget target absolute link
  decodedConditional : ∀ (bo bi : BitVec 5) (target : BitVec 32) (absolute link : Bool) (w : Instruction),
    encodeBranchConditional (bo.setWidth 32) (bi.setWidth 32) target absolute link = .ok w →
      classify w = { DecodedBranch.ofTarget target absolute link with
        isConditionalForm := true, bo := bo.setWidth 32, bi := bi.setWidth 32 }
  reencode : ∀ (w : Instruction), w.extractLsb' 26 6 = 18 ∨ w.extractLsb' 26 6 = 16 →
    (classify w).reencode = .ok w

theorem encode_classify_inverse : BranchesInverse := by
  constructor
  . intro target absolute link
    apply exists_error_iff
    apply encodeBranch_eq_ok_iff
  . intro bo bi target absolute link
    apply exists_error_iff
    apply encodeBranchConditional_eq_ok_iff
  . intro target absolute link w
    apply classify_of_encodeBranch
  . intro bo bi target absolute link w
    apply classify_of_encodeBranchConditional
  . intro w hop
    cases hop with
    | inl hop => apply reencode_of_opcode_18 hop
    | inr hop => apply reencode_of_opcode_16 hop

/-
The doublewords in memory.
-/

/--
The four encoders of the DS-form, with the fields that tell their words apart.
-/
inductive DsForm where
  | std
  | stdu
  | ld
  | ldu
  deriving DecidableEq, Repr

namespace DsForm

def encode (f : DsForm) (rsOrRt ra d : BitVec 32) : Except InvalidArgument Instruction :=
  match f with
  | std => encodeStd rsOrRt ra d
  | stdu => encodeStdu rsOrRt ra d
  | ld => encodeLd rsOrRt ra d
  | ldu => encodeLdu rsOrRt ra d

def primaryOpcode (f : DsForm) : BitVec 6 :=
  match f with
  | std => 62
  | stdu => 62
  | ld => 58
  | ldu => 58

def xo (f : DsForm) : BitVec 2 :=
  match f with
  | std => 0
  | stdu => 1
  | ld => 0
  | ldu => 1

def insn (f : DsForm) (rsOrRt ra : BitVec 5) (ds : BitVec 14) : Insn :=
  match f with
  | std => .std rsOrRt ra ds
  | stdu => .stdu rsOrRt ra ds
  | ld => .ld rsOrRt ra ds
  | ldu => .ldu rsOrRt ra ds

theorem encode_eq (f : DsForm) (rsOrRt ra d : BitVec 32)
    : f.encode rsOrRt ra d = encodeStdForm (f.primaryOpcode.setWidth 32) (f.xo.setWidth 32) rsOrRt ra d := by
  cases f <;> rfl

theorem insn_inj {f f' : DsForm} {rsOrRt rsOrRt' ra ra' : BitVec 5} {ds ds' : BitVec 14}
    (h : f.insn rsOrRt ra ds = f'.insn rsOrRt' ra' ds')
    : f = f' ∧ rsOrRt = rsOrRt' ∧ ra = ra' ∧ ds = ds' := by
  cases f <;> cases f' <;> simp_all [insn]

end DsForm

def dsForm (primaryOpcode xo rsOrRt ra d : BitVec 32) : Instruction :=
  (bits primaryOpcode 6 <<< 26) ||| (bits rsOrRt 5 <<< 21) ||| (bits ra 5 <<< 16) |||
    (bits (BitVec.ofInt 32 (d.toInt.tdiv 4)) 14 <<< 2) ||| bits xo 2

theorem encodeStdForm_eq_ok_iff (primaryOpcode xo rsOrRt ra d : BitVec 32) (w : Instruction)
    : encodeStdForm primaryOpcode xo rsOrRt ra d = .ok w
        ↔
      Fits 16 d.toInt ∧ w = dsForm primaryOpcode xo rsOrRt ra d := by
  unfold encodeStdForm
  apply ite_tests_eq_ok_iff
  . rfl
  . rfl

section DsFields

attribute [local simp] BitVec.extractLsb'_or

variable (op : BitVec 6) (xo : BitVec 2) (rsOrRt ra : BitVec 5) (d : BitVec 32)

theorem opcode_dsForm
    : (dsForm (op.setWidth 32) (xo.setWidth 32) (rsOrRt.setWidth 32) (ra.setWidth 32) d).extractLsb' 26 6
        =
      op := by
  simp [dsForm]

theorem rt_dsForm
    : (dsForm (op.setWidth 32) (xo.setWidth 32) (rsOrRt.setWidth 32) (ra.setWidth 32) d).extractLsb' 21 5
        =
      rsOrRt := by
  simp [dsForm]

theorem ra_dsForm
    : (dsForm (op.setWidth 32) (xo.setWidth 32) (rsOrRt.setWidth 32) (ra.setWidth 32) d).extractLsb' 16 5
        =
      ra := by
  simp [dsForm]

theorem ds_dsForm
    : (dsForm (op.setWidth 32) (xo.setWidth 32) (rsOrRt.setWidth 32) (ra.setWidth 32) d).extractLsb' 2 14
        =
      BitVec.ofInt 14 (d.toInt.tdiv 4) := by
  rw [← extractLsb'_zero_ofInt (W := 32) 14 (by decide)]
  simp [dsForm]

theorem xo_dsForm
    : (dsForm (op.setWidth 32) (xo.setWidth 32) (rsOrRt.setWidth 32) (ra.setWidth 32) d).extractLsb' 0 2
        =
      xo := by
  simp [dsForm]

end DsFields

theorem decode_of_dsForm {f : DsForm} {w : Instruction} (hop : w.extractLsb' 26 6 = f.primaryOpcode)
    (hxo : w.extractLsb' 0 2 = f.xo)
    : decode w = some (f.insn (w.extractLsb' 21 5) (w.extractLsb' 16 5) (w.extractLsb' 2 14)) := by
  unfold decode
  dsimp only
  rw [hop, hxo]
  cases f <;> simp [DsForm.primaryOpcode, DsForm.xo, DsForm.insn]

-- The division in front of the field is exact, so multiplying by 4 takes it back.
theorem toInt_ds_mul_four {d : BitVec 32} (h : Fits 16 d.toInt)
    : (BitVec.ofInt 14 (d.toInt.tdiv 4)).toInt * 4 = d.toInt := by
  have hlower := h.lower
  have hupper := h.upper
  have hexact : d.toInt.tdiv 4 * 4 = d.toInt := Int.tdiv_mul_cancel h.aligned
  rw [toInt_ofInt_of_bounds, hexact]
  . decide
  . show -8192 ≤ _
    omega
  . show _ < 8192
    omega

/--
`w` is, read as an instruction of the DS-form, the one of `f` with these operands.
-/
structure DsForm.IsWord (f : DsForm) (rsOrRt ra : BitVec 5) (d : BitVec 32) (w : Instruction) : Prop where
  primaryOpcode : w.extractLsb' 26 6 = f.primaryOpcode
  xo : w.extractLsb' 0 2 = f.xo
  registers : w.extractLsb' 21 5 = rsOrRt ∧ w.extractLsb' 16 5 = ra
  ds : (w.extractLsb' 2 14).toInt * 4 = d.toInt
  decode : decode w = some (f.insn rsOrRt ra (w.extractLsb' 2 14))

theorem DsForm.isWord_of_encode {f : DsForm} {rsOrRt ra : BitVec 5} {d : BitVec 32} {w : Instruction}
    (h : f.encode (rsOrRt.setWidth 32) (ra.setWidth 32) d = .ok w)
    : f.IsWord rsOrRt ra d w := by
  rw [encode_eq, encodeStdForm_eq_ok_iff] at h
  have hfits := h.left
  have hop : w.extractLsb' 26 6 = f.primaryOpcode := by
    rw [h.right, opcode_dsForm]
  have hxo : w.extractLsb' 0 2 = f.xo := by
    rw [h.right, xo_dsForm]
  have hrt : w.extractLsb' 21 5 = rsOrRt := by
    rw [h.right, rt_dsForm]
  have hra : w.extractLsb' 16 5 = ra := by
    rw [h.right, ra_dsForm]
  constructor
  . exact hop
  . exact hxo
  . exact ⟨hrt, hra⟩
  . rw [h.right, ds_dsForm, toInt_ds_mul_four hfits]
  . rw [decode_of_dsForm hop hxo, hrt, hra]

-- The operands can be read out of the word.
theorem DsForm.IsWord.unique {f f' : DsForm} {rsOrRt rsOrRt' ra ra' : BitVec 5} {d d' : BitVec 32}
    {w : Instruction} (h : f.IsWord rsOrRt ra d w) (h' : f'.IsWord rsOrRt' ra' d' w)
    : f = f' ∧ rsOrRt = rsOrRt' ∧ ra = ra' ∧ d = d' := by
  have hinsn : f.insn rsOrRt ra (w.extractLsb' 2 14) = f'.insn rsOrRt' ra' (w.extractLsb' 2 14) := by
    apply Option.some.inj
    rw [← h.decode, ← h'.decode]
  have hd : d = d' := by
    apply BitVec.eq_of_toInt_eq
    rw [← h.ds, ← h'.ds]
  have hfields := DsForm.insn_inj hinsn
  exact ⟨hfields.left, hfields.right.left, hfields.right.right.left, hd⟩

/--
What the four encoders do with every displacement and every pair of registers.
-/
structure DsFormsInverse : Prop where
  error : ∀ (f : DsForm) (rsOrRt ra : BitVec 5) (d : BitVec 32),
    (∃ e, f.encode (rsOrRt.setWidth 32) (ra.setWidth 32) d = .error e)
      ↔ ¬ (4 ∣ d.toInt ∧ -32768 ≤ d.toInt ∧ d.toInt ≤ 32764)
  isWord : ∀ (f : DsForm) (rsOrRt ra : BitVec 5) (d : BitVec 32) (w : Instruction),
    f.encode (rsOrRt.setWidth 32) (ra.setWidth 32) d = .ok w → f.IsWord rsOrRt ra d w
  injective : ∀ (f f' : DsForm) (rsOrRt rsOrRt' ra ra' : BitVec 5) (d d' : BitVec 32) (w : Instruction),
    f.encode (rsOrRt.setWidth 32) (ra.setWidth 32) d = .ok w →
      f'.encode (rsOrRt'.setWidth 32) (ra'.setWidth 32) d' = .ok w →
        f = f' ∧ rsOrRt = rsOrRt' ∧ ra = ra' ∧ d = d'

theorem Fits.iff_16 (disp : Int) : Fits 16 disp ↔ 4 ∣ disp ∧ -32768 ≤ disp ∧ disp ≤ 32764 := by
  constructor
  . intro h
    exact ⟨h.aligned, h.lower, h.upper⟩
  . intro h
    exact ⟨h.left, h.right.left, h.right.right⟩

theorem encodeStdForm_decode_inverse : DsFormsInverse := by
  constructor
  . intro f rsOrRt ra d
    rw [← Fits.iff_16, DsForm.encode_eq]
    apply exists_error_iff
    apply encodeStdForm_eq_ok_iff
  . intro f rsOrRt ra d w
    apply DsForm.isWord_of_encode
  . intro f f' rsOrRt rsOrRt' ra ra' d d' w h h'
    apply (DsForm.isWord_of_encode h).unique (DsForm.isWord_of_encode h')

end Ppc
end ElfCraft
