import OpenNXT.Resources.ParamFilesystemCodec
import OpenNXT.Resources.VarDefinitionFilesystemCodec

/-! Params and vars, the definitions of index 2. -/
namespace OpenNXT.Resources
open Buffer Data Filesystem
open Filesystem.ReferenceTable (storedOnly)

/-- What is stored and loaded again as it was: params that are only for members, and vars whose
type has an id of seven bits. -/
theorem param_and_var_restored_iff {codecs : Codecs} {read : ℤ → Option (List Byte)}
    {t t' : ReferenceTable} {id id' : Word} {archive : ℤ} {param : ParamDefinition}
    {var : VarDefinition} (hparam : (t.archives.get? 11).isSome)
    (hplain : Windows1252.Plain param.defaultString) (hvar : (t'.archives.get? archive).isSome)
    (hlifetime : var.lifetime.toNat ≤ 255) :
    (Restores codecs read (fun rounds => ParamFilesystemCodec.store codecs read t id param rounds)
        (fun stored => ParamFilesystemCodec.load codecs read stored id) t 11 id.toInt param ↔
      Available codecs read t 11 ∧ param.membersOnly = true ∧
        ParamFilesystemCodec.encodedSize param ≤ 2 ^ 30) ∧
    (Restores codecs read
        (fun _ => VarDefinitionFilesystemCodec.store codecs read [archive] t' id' var)
        (fun stored => VarDefinitionFilesystemCodec.load codecs read [archive] stored id') t' archive
        id'.toInt var ↔
      Available codecs read t' archive ∧ var.type.id.toNat < 128) :=
  ⟨ParamFilesystemCodec.restores_iff_membersOnly hparam hplain,
    VarDefinitionFilesystemCodec.restores_iff_typeId hvar hlifetime⟩

theorem plain_null : Windows1252.Plain ['n', 'u', 'l', 'l'] :=
  Windows1252.plain_of_ascii (by decide)

theorem param_and_var_restored :
    Restores storedOnly (fun _ => none)
      (fun rounds => ParamFilesystemCodec.store storedOnly (fun _ => none) (newTable 11) 5
        { defaultInt := 7 } rounds)
      (fun stored => ParamFilesystemCodec.load storedOnly (fun _ => none) stored 5) (newTable 11) 11
      5 { defaultInt := 7 } ∧
    Restores storedOnly (fun _ => none)
      (fun _ => VarDefinitionFilesystemCodec.store storedOnly (fun _ => none) [60] (newTable 60) 9
        { type := .string, lifetime := 200 })
      (fun stored => VarDefinitionFilesystemCodec.load storedOnly (fun _ => none) [60] stored 9)
      (newTable 60) 60 9 { type := .string, lifetime := 200 } := by
  have hiff := @param_and_var_restored_iff storedOnly (fun _ => none) (newTable 11) (newTable 60)
    5 9 60 { defaultInt := 7 } { type := .string, lifetime := 200 } (by decide) plain_null (by decide)
    (by decide)
  exact ⟨hiff.1.mpr ⟨available_newTable 11, rfl, by decide⟩,
    hiff.2.mpr ⟨available_newTable 60, by decide⟩⟩

/-- A param that is not only for members, and a var whose type has the id 200. -/
theorem param_and_var_lost :
    ¬ Restores storedOnly (fun _ => none)
      (fun rounds => ParamFilesystemCodec.store storedOnly (fun _ => none) (newTable 11) 5
        { membersOnly := false } rounds)
      (fun stored => ParamFilesystemCodec.load storedOnly (fun _ => none) stored 5) (newTable 11) 11
      5 { membersOnly := false } ∧
    ¬ Restores storedOnly (fun _ => none)
      (fun _ => VarDefinitionFilesystemCodec.store storedOnly (fun _ => none) [60] (newTable 60) 9
        { type := .type200 })
      (fun stored => VarDefinitionFilesystemCodec.load storedOnly (fun _ => none) [60] stored 9)
      (newTable 60) 60 9 { type := .type200 } := by
  constructor
  · intro hrestores
    have hparts := (ParamFilesystemCodec.restores_iff_membersOnly (by decide) plain_null).mp hrestores
    cases hparts.2.1
  · intro hrestores
    have hparts := (VarDefinitionFilesystemCodec.restores_iff_typeId (by decide) (by decide)).mp
      hrestores
    exact absurd hparts.2 (by decide)

end OpenNXT.Resources
