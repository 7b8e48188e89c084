import OpenNXT.Ext.ByteArray
import OpenNXT.Util.RSAUtil

/-! The public keys in client binaries and the checks in them, patched file by file. -/
namespace OpenNXT.Tools
open Buffer ByteBuf Data Ext Util

inductive BinaryType
  | winXp
  | win32
  | win64
  | macOsX
  | linux
  | win32c
  | win64c
  | mobile
deriving DecidableEq

structure BinaryPatch where
  offset : ℕ
  expected : List Byte
  replacement : List Byte
deriving DecidableEq

namespace ClientPatcher

def secureWorldValidationBypassPatches : BinaryType → List BinaryPatch
  | .win64c => [
    { offset := 0x648b4b
      expected := [0x4d, 0x8b, 0xc7]
      replacement := [0x45, 0x33, 0xc0] },
    { offset := 0x648d56
      expected := [0x0f, 0x84, 0x26, 0x01, 0x00, 0x00]
      replacement := [0xe9, 0x27, 0x01, 0x00, 0x00, 0x90] },
    { offset := 0x648e8a
      expected := [0x0f, 0x84, 0x98, 0x00, 0x00, 0x00]
      replacement := [0xe9, 0x99, 0x00, 0x00, 0x00, 0x90] },
    { offset := 0xe9a12
      expected := [
        0x83, 0x38, 0x00, 0x75, 0x04, 0xc6, 0x46, 0x48, 0x00, 0x8b, 0x00, 0x85, 0xc0, 0x74, 0x75,
        0x83, 0xf8, 0x01, 0x75, 0x70]
      replacement := [
        0x48, 0x85, 0xc0, 0x74, 0x7f, 0x8b, 0x00, 0x85, 0xc0, 0x74, 0x79, 0x83, 0xf8, 0x01, 0x75,
        0x74, 0x90, 0x90, 0x90, 0x90] },
    { offset := 0x1405e0
      expected := [0x40, 0x53, 0x48, 0x83, 0xec, 0x20, 0x48, 0x8b, 0x42, 0x18]
      replacement := [0x53, 0x48, 0x83, 0xec, 0x20, 0xe9, 0x70, 0x00, 0x00, 0x00] }]
  | _ => []

/-- The moduli that are put into the clients, and the environment's flag. -/
structure Settings where
  js5 : ℤ
  login : ℤ
  skipJs5Patch : Bool

/-- The texts of the keys that were found in earlier files. -/
structure Keys where
  oldJs5 : Option (List Byte) := none
  oldLogin : Option (List Byte) := none
deriving DecidableEq

inductive PatchException
  | search (e : RSAUtil.SearchException)
  | indexOutOfBounds
  | nullPointer
deriving DecidableEq

/-- The array behind the call, and whether the replacement is there. -/
def applyBinaryPatch (raw : List Byte) (patch : BinaryPatch) : List Byte × Bool :=
  let stop := patch.offset + patch.expected.length
  if raw.length < stop ∨ patch.replacement.length ≠ patch.expected.length then (raw, false)
  else
    let window := (raw.drop patch.offset).take patch.expected.length
    if window = patch.replacement then (raw, true)
    else if window ≠ patch.expected then (raw, false)
    else (overwrite raw patch.offset patch.replacement, true)

def applyBinaryPatches (raw : List Byte) (patches : List BinaryPatch) : List Byte :=
  patches.foldl (fun raw patch => (applyBinaryPatch raw patch).1) raw

/-- The text of a key: the remembered one, or else the first one found. -/
def findKey (old : Option (List Byte)) (raw : List Byte) (bits : ℤ) :
    Except PatchException (Option (List Byte)) :=
  match old with
  | some text => .ok (some text)
  | none =>
    match RSAUtil.findRSAKey raw bits with
    | .error e => .error (.search e)
    | .ok key => .ok (key.map Hexadecimal.print)

def replaceKey (raw : List Byte) (old : Option (List Byte)) (modulus : ℤ) :
    Except PatchException (List Byte × Bool) :=
  match old with
  | none => .error .nullPointer
  | some text =>
    match replaceFirst raw text (Hexadecimal.print modulus) with
    | none => .error .indexOutOfBounds
    | some result => .ok result

/-- The second half of `patchFile`: both keys are known. The array is modified in place, also where
it is written as an unchanged copy. -/
def replaceKeys (c : Settings) (type : BinaryType) (keys : Keys) (raw : List Byte) :
    Except PatchException (List Byte) := do
  let js5 ← if c.skipJs5Patch then .ok (raw, true) else replaceKey raw keys.oldJs5 c.js5
  if js5.2 = false then return js5.1
  let login ← replaceKey js5.1 keys.oldLogin c.login
  if login.2 = false then return login.1
  return applyBinaryPatches login.1 (secureWorldValidationBypassPatches type)

/-- The keys that are remembered, and the file that is written. -/
def patchFile (c : Settings) (type : BinaryType) (keys : Keys) (raw : List Byte)
    (isClient : Bool) : Keys × Except PatchException (List Byte) :=
  if isClient = false then (keys, .ok raw)
  else
    match if c.skipJs5Patch then .ok keys.oldJs5 else findKey keys.oldJs5 raw 4096 with
    | .error e => (keys, .error e)
    | .ok oldJs5 =>
      if c.skipJs5Patch = false ∧ oldJs5 = none then (keys, .ok raw)
      else
        match findKey keys.oldLogin raw 1024 with
        | .error e => ({ keys with oldJs5 := oldJs5 }, .error e)
        | .ok none => ({ keys with oldJs5 := oldJs5 }, .ok raw)
        | .ok (some login) =>
          let keys : Keys := ⟨oldJs5, some login⟩
          (keys, replaceKeys c type keys raw)

/-- The keys that are remembered after some files. -/
def keysAfter (c : Settings) (files : List (BinaryType × List Byte)) : Keys :=
  files.foldl (fun keys file => (patchFile c file.1 keys file.2 true).1) {}

section Patches
variable {raw : List Byte} {patch : BinaryPatch} {patches : List BinaryPatch} {x : ℕ}

/-- The bytes that a patch expects are where it expects them. -/
def Matches (raw : List Byte) (patch : BinaryPatch) : Prop :=
  patch.offset + patch.expected.length ≤ raw.length ∧
    (raw.drop patch.offset).take patch.expected.length = patch.expected

instance (raw : List Byte) (patch : BinaryPatch) : Decidable (Matches raw patch) :=
  inferInstanceAs (Decidable (_ ∧ _))

/-- The patches whose expected bytes match when it is their turn. -/
def matched (raw : List Byte) : List BinaryPatch → List BinaryPatch
  | [] => []
  | patch :: patches =>
    let rest := matched (applyBinaryPatch raw patch).1 patches
    if Matches raw patch then patch :: rest else rest

/-- A patch keeps the length, and writes nothing outside of the bytes it matched. -/
theorem applyBinaryPatch_cases (raw : List Byte) (patch : BinaryPatch) :
    (applyBinaryPatch raw patch).1 = raw ∨ Matches raw patch ∧
      patch.replacement.length = patch.expected.length ∧
      (applyBinaryPatch raw patch).1 = overwrite raw patch.offset patch.replacement := by
  rw [applyBinaryPatch]
  dsimp only
  split_ifs with hinvalid hpresent hother
  · exact Or.inl rfl
  · exact Or.inl rfl
  · exact Or.inl rfl
  · obtain ⟨hlength, hsize⟩ := not_or.mp hinvalid
    exact Or.inr ⟨⟨not_lt.mp hlength, not_not.mp hother⟩, not_not.mp hsize, rfl⟩

theorem length_applyBinaryPatch (raw : List Byte) (patch : BinaryPatch) :
    (applyBinaryPatch raw patch).1.length = raw.length := by
  rcases applyBinaryPatch_cases raw patch with h | ⟨⟨hle, -⟩, hsize, h⟩
  · rw [h]
  · rw [h, length_overwrite (by omega)]

theorem length_applyBinaryPatches (raw : List Byte) (patches : List BinaryPatch) :
    (applyBinaryPatches raw patches).length = raw.length := by
  induction patches generalizing raw with
  | nil => rfl
  | cons patch patches ih =>
    rw [applyBinaryPatches, List.foldl_cons]
    exact (ih _).trans (length_applyBinaryPatch raw patch)

/-- Only bytes of matched patches change. -/
theorem applyBinaryPatches_outside
    (hx : ∀ patch ∈ matched raw patches,
      ¬ (patch.offset ≤ x ∧ x < patch.offset + patch.expected.length)) :
    (applyBinaryPatches raw patches)[x]? = raw[x]? := by
  induction patches generalizing raw with
  | nil => rfl
  | cons patch patches ih =>
    rw [matched] at hx
    have hrest : (applyBinaryPatches (applyBinaryPatch raw patch).1 patches)[x]? =
        (applyBinaryPatch raw patch).1[x]? := by
      refine ih fun p hp => hx p ?_
      split_ifs
      · exact List.mem_cons_of_mem _ hp
      · exact hp
    rw [applyBinaryPatches, List.foldl_cons]
    refine hrest.trans ?_
    rcases applyBinaryPatch_cases raw patch with h | ⟨hmatches, hsize, h⟩
    · rw [h]
    · have hpatch := hx patch (by rw [if_pos hmatches]; exact List.mem_cons_self)
      rw [h, getElem?_overwrite (by rw [hsize]; exact hmatches.1) (by omega)]

end Patches

section Step
variable {c : Settings} {type : BinaryType} {keys : Keys} {raw : List Byte}

/-- The text of the js5 key, unless its patch is skipped. -/
def js5Key (c : Settings) (keys : Keys) (raw : List Byte) :
    Except PatchException (Option (List Byte)) :=
  if c.skipJs5Patch then .ok none else findKey keys.oldJs5 raw 4096

def loginKey (keys : Keys) (raw : List Byte) : Except PatchException (Option (List Byte)) :=
  findKey keys.oldLogin raw 1024

/-- The file gives a text for every key that is to be replaced. -/
structure Found (c : Settings) (keys : Keys) (raw : List Byte) (js5 : Option (List Byte))
    (login : List Byte) : Prop where
  js5_eq : js5Key c keys raw = .ok js5
  isSome : c.skipJs5Patch = false → js5 ≠ none
  login_eq : loginKey keys raw = .ok (some login)

/-- The js5 key that is to be replaced occurs. -/
def Js5Occurs (raw : List Byte) (js5 : Option (List Byte)) : Prop :=
  ∀ text, js5 = some text → indexOf raw text ≠ none

/-- The array when it is the login key's turn. -/
def afterJs5 (c : Settings) (raw : List Byte) (js5 : Option (List Byte)) : List Byte :=
  match js5 with
  | none => raw
  | some text =>
    match indexOf raw text with
    | none => raw
    | some i => overwrite raw i (Hexadecimal.print c.js5)

/-- A replacement is as long as the text it replaces. -/
structure Fits (c : Settings) (keys : Keys) (raw : List Byte) : Prop where
  js5 : ∀ text, js5Key c keys raw = .ok (some text) →
    (Hexadecimal.print c.js5).length = text.length
  login : ∀ text, loginKey keys raw = .ok (some text) →
    (Hexadecimal.print c.login).length = text.length

/-- The first occurrence of some bytes covers `x`. -/
def Covers (raw text : List Byte) (x : ℕ) : Prop :=
  ∃ i, indexOf raw text = some i ∧ i ≤ x ∧ x < i + text.length

/-- A complete patch may change the byte at `x`: in the first occurrence of a replaced key, or in
the bytes of a listed patch that matched. -/
def MayChange (c : Settings) (type : BinaryType) (raw : List Byte) (js5 : Option (List Byte))
    (login : List Byte) (x : ℕ) : Prop :=
  (∃ text, js5 = some text ∧ Covers raw text x) ∨ Covers raw login x ∨
    ∃ j, indexOf (afterJs5 c raw js5) login = some j ∧
      ∃ patch ∈ matched (overwrite (afterJs5 c raw js5) j (Hexadecimal.print c.login))
        (secureWorldValidationBypassPatches type),
      patch.offset ≤ x ∧ x < patch.offset + patch.expected.length

/-- Every key was found and replaced, and nothing changed but what may. -/
def Complete (c : Settings) (type : BinaryType) (keys : Keys) (raw written : List Byte) : Prop :=
  ∃ js5 login, Found c keys raw js5 login ∧ Js5Occurs raw js5 ∧
    indexOf (afterJs5 c raw js5) login ≠ none ∧
    ∀ x, written[x]? ≠ raw[x]? → MayChange c type raw js5 login x

/-- A file is written, as long as the original: a complete patch, or else an unchanged copy. -/
def CompleteOrUnchanged (c : Settings) (type : BinaryType) (keys : Keys) (raw : List Byte) :
    Prop :=
  ∃ written, (patchFile c type keys raw true).2 = .ok written ∧ written.length = raw.length ∧
    (written = raw ∨ Complete c type keys raw written)

/-- The key searches stay inside the file. Where the js5 key was replaced by another text, the
login key still occurs. Its occurrence there is the one in the original, up to bytes that do not
change or that may change. -/
structure Clean (c : Settings) (type : BinaryType) (keys : Keys) (raw : List Byte) : Prop where
  js5 : ∀ e, js5Key c keys raw ≠ .error e
  login : ∀ js5, js5Key c keys raw = .ok js5 → (c.skipJs5Patch = false → js5 ≠ none) →
    ∀ e, loginKey keys raw ≠ .error e
  missing : ∀ js5 login, Found c keys raw js5 login → Js5Occurs raw js5 →
    indexOf (afterJs5 c raw js5) login = none → afterJs5 c raw js5 = raw
  moved : ∀ js5 login, Found c keys raw js5 login → Js5Occurs raw js5 →
    ∀ j, indexOf (afterJs5 c raw js5) login = some j → ∀ x, j ≤ x → x < j + login.length →
      (Hexadecimal.print c.login)[x - j]? ≠ raw[x]? → MayChange c type raw js5 login x

private theorem patchFile_of_js5_error {e : PatchException} (h : js5Key c keys raw = .error e) :
    (patchFile c type keys raw true).2 = .error e := by
  cases hskip : c.skipJs5Patch with
  | true => simp [js5Key, hskip] at h
  | false =>
    rw [js5Key, hskip, if_neg Bool.false_ne_true] at h
    simp [patchFile, hskip, h]

private theorem patchFile_of_js5_none (h : js5Key c keys raw = .ok none)
    (hskip : c.skipJs5Patch = false) : (patchFile c type keys raw true).2 = .ok raw := by
  rw [js5Key, hskip, if_neg Bool.false_ne_true] at h
  simp [patchFile, hskip, h]

section Known
variable {js5 : Option (List Byte)}

private theorem patchFile_of_login_error {e : PatchException}
    (hjs5 : js5Key c keys raw = .ok js5) (hsome : c.skipJs5Patch = false → js5 ≠ none)
    (hlogin : loginKey keys raw = .error e) : (patchFile c type keys raw true).2 = .error e := by
  rw [loginKey] at hlogin
  cases hskip : c.skipJs5Patch with
  | true => simp [patchFile, hskip, hlogin]
  | false =>
    rw [js5Key, hskip, if_neg Bool.false_ne_true] at hjs5
    simp [patchFile, hskip, hjs5, hsome hskip, hlogin]

private theorem patchFile_of_login_none (hjs5 : js5Key c keys raw = .ok js5)
    (hsome : c.skipJs5Patch = false → js5 ≠ none)
    (hlogin : loginKey keys raw = .ok none) : (patchFile c type keys raw true).2 = .ok raw := by
  rw [loginKey] at hlogin
  cases hskip : c.skipJs5Patch with
  | true => simp [patchFile, hskip, hlogin]
  | false =>
    rw [js5Key, hskip, if_neg Bool.false_ne_true] at hjs5
    simp [patchFile, hskip, hjs5, hsome hskip, hlogin]

end Known

private theorem patchFile_of_found {js5 : Option (List Byte)} {login : List Byte}
    (h : Found c keys raw js5 login) :
    (patchFile c type keys raw true).2 = replaceKeys c type ⟨js5, some login⟩ raw := by
  obtain ⟨hjs5, hsome, hlogin⟩ := h
  rw [loginKey] at hlogin
  cases hskip : c.skipJs5Patch with
  | true => simp [patchFile, replaceKeys, hskip, hlogin]
  | false =>
    rw [js5Key, hskip, if_neg Bool.false_ne_true] at hjs5
    simp [patchFile, hskip, hjs5, hsome hskip, hlogin]

section Replace
variable {text : List Byte} {modulus : ℤ}

private theorem replaceKey_of_none (h : indexOf raw text = none) :
    replaceKey raw (some text) modulus = .ok (raw, false) := by
  rw [replaceKey, replaceFirst, h]

private theorem replaceKey_of_some {i : ℕ} (h : indexOf raw text = some i)
    (hlength : (Hexadecimal.print modulus).length = text.length) :
    replaceKey raw (some text) modulus =
      .ok (overwrite raw i (Hexadecimal.print modulus), true) := by
  have hle := (indexOf_eq_some h).2
  rw [replaceKey, replaceFirst, h]
  dsimp only
  rw [if_pos (by omega)]

/-- The js5 key is replaced, or it is skipped, or the run ends. -/
private theorem replaceKeys_eq {js5 : Option (List Byte)} {login : List Byte}
    (h : Found c keys raw js5 login) (hfits : Fits c keys raw) (hoccurs : Js5Occurs raw js5) :
    replaceKeys c type ⟨js5, some login⟩ raw =
      (replaceKey (afterJs5 c raw js5) (some login) c.login).bind fun r =>
        if r.2 = false then .ok r.1
        else .ok (applyBinaryPatches r.1 (secureWorldValidationBypassPatches type)) := by
  cases hskip : c.skipJs5Patch with
  | true =>
    have hnone := h.js5_eq
    rw [js5Key, hskip, if_pos rfl] at hnone
    cases hnone
    rw [replaceKeys, hskip, if_pos rfl]
    rfl
  | false =>
    obtain ⟨text, rfl⟩ := Option.ne_none_iff_exists'.mp (h.isSome hskip)
    obtain ⟨i, hi⟩ := Option.ne_none_iff_exists'.mp (hoccurs text rfl)
    rw [replaceKeys, hskip, if_neg Bool.false_ne_true,
      replaceKey_of_some hi (hfits.js5 text h.js5_eq), afterJs5, hi]
    rfl

private theorem replaceKeys_of_absent {js5 : Option (List Byte)} {login : List Byte}
    (h : Found c keys raw js5 login) (hoccurs : ¬ Js5Occurs raw js5) :
    replaceKeys c type ⟨js5, some login⟩ raw = .ok raw := by
  cases hskip : c.skipJs5Patch with
  | true =>
    have hnone := h.js5_eq
    rw [js5Key, hskip, if_pos rfl] at hnone
    cases hnone
    exact absurd (show Js5Occurs raw none from nofun) hoccurs
  | false =>
    obtain ⟨text, rfl⟩ := Option.ne_none_iff_exists'.mp (h.isSome hskip)
    have hnone : indexOf raw text = none := by
      by_contra hne
      exact hoccurs fun t ht => by
        cases ht
        exact hne
    rw [replaceKeys, hskip, if_neg Bool.false_ne_true, replaceKey_of_none hnone]
    rfl

end Replace

section Confined
variable {js5 : Option (List Byte)} {login : List Byte}

private theorem length_afterJs5 (h : Found c keys raw js5 login) (hfits : Fits c keys raw) :
    (afterJs5 c raw js5).length = raw.length := by
  cases js5 with
  | none => rfl
  | some text =>
    rw [afterJs5]
    cases hi : indexOf raw text with
    | none => rfl
    | some i =>
      have hle := (indexOf_eq_some hi).2
      have hlength := hfits.js5 text h.js5_eq
      exact length_overwrite (by omega)

/-- The js5 key changes nothing outside of its first occurrence. -/
private theorem afterJs5_outside (h : Found c keys raw js5 login) (hfits : Fits c keys raw) {x : ℕ}
    (hx : ∀ text, js5 = some text → ¬ Covers raw text x) :
    (afterJs5 c raw js5)[x]? = raw[x]? := by
  cases js5 with
  | none => rfl
  | some text =>
    have hcovers := hx text rfl
    rw [afterJs5]
    cases hi : indexOf raw text with
    | none => rfl
    | some i =>
      have hle := (indexOf_eq_some hi).2
      have hlength := hfits.js5 text h.js5_eq
      refine getElem?_overwrite (by omega) ?_
      by_contra hinside
      exact hcovers ⟨i, hi, by omega, by omega⟩

/-- With both keys replaced, the changes are where they may be when those of the login key are. -/
private theorem complete_iff (h : Found c keys raw js5 login) (hfits : Fits c keys raw) {j : ℕ}
    (hj : indexOf (afterJs5 c raw js5) login = some j) :
    (∀ x, (applyBinaryPatches (overwrite (afterJs5 c raw js5) j (Hexadecimal.print c.login))
        (secureWorldValidationBypassPatches type))[x]? ≠ raw[x]? →
      MayChange c type raw js5 login x) ↔
    ∀ x, j ≤ x → x < j + login.length → (Hexadecimal.print c.login)[x - j]? ≠ raw[x]? →
      MayChange c type raw js5 login x := by
  have hle := (indexOf_eq_some hj).2
  have hlength := hfits.login login h.login_eq
  have hpatches {x : ℕ} (hx : ¬ MayChange c type raw js5 login x) :
      (applyBinaryPatches (overwrite (afterJs5 c raw js5) j (Hexadecimal.print c.login))
        (secureWorldValidationBypassPatches type))[x]? =
        (overwrite (afterJs5 c raw js5) j (Hexadecimal.print c.login))[x]? :=
    applyBinaryPatches_outside fun patch hpatch hin =>
      hx (Or.inr (Or.inr ⟨j, hj, patch, hpatch, hin⟩))
  constructor
  · intro hall x hlow hhigh hne
    by_contra hx
    refine hx (hall x ?_)
    rw [hpatches hx, getElem?_overwrite_inside (by omega) hlow (by omega)]
    exact hne
  · intro hall x hne
    by_contra hx
    rw [hpatches hx] at hne
    by_cases hin : j ≤ x ∧ x < j + login.length
    · rw [getElem?_overwrite_inside (by omega) hin.1 (by omega)] at hne
      exact hx (hall x hin.1 hin.2 hne)
    · rw [getElem?_overwrite (by omega) (by omega)] at hne
      exact hne (afterJs5_outside h hfits fun text htext hcovers =>
        hx (Or.inl ⟨text, htext, hcovers⟩))

theorem Found.unique {js5' : Option (List Byte)} {login' : List Byte}
    (h : Found c keys raw js5 login) (h' : Found c keys raw js5' login') :
    js5' = js5 ∧ login' = login :=
  ⟨Except.ok.inj (h'.js5_eq.symm.trans h.js5_eq),
    Option.some.inj (Except.ok.inj (h'.login_eq.symm.trans h.login_eq))⟩

end Confined

/-- A file whose keys are known is patched completely or copied unchanged when it is clean. -/
private theorem completeOrUnchanged_of_found {js5 : Option (List Byte)} {login : List Byte}
    (h : Found c keys raw js5 login) (hfits : Fits c keys raw) :
    CompleteOrUnchanged c type keys raw ↔ Clean c type keys raw := by
  have hclean (hmissing : Js5Occurs raw js5 → indexOf (afterJs5 c raw js5) login = none →
        afterJs5 c raw js5 = raw)
      (hmoved : Js5Occurs raw js5 → ∀ j, indexOf (afterJs5 c raw js5) login = some j →
        ∀ x, j ≤ x → x < j + login.length → (Hexadecimal.print c.login)[x - j]? ≠ raw[x]? →
          MayChange c type raw js5 login x) : Clean c type keys raw :=
    { js5 := fun e he => by
        rw [h.js5_eq] at he
        cases he
      login := fun _ _ _ e he => by
        rw [h.login_eq] at he
        cases he
      missing := fun _ _ h' => by
        obtain ⟨rfl, rfl⟩ := h.unique h'
        exact hmissing
      moved := fun _ _ h' => by
        obtain ⟨rfl, rfl⟩ := h.unique h'
        exact hmoved }
  by_cases hoccurs : Js5Occurs raw js5
  swap
  · have hrun : (patchFile c type keys raw true).2 = .ok raw := by
      rw [patchFile_of_found h, replaceKeys_of_absent h hoccurs]
    exact ⟨fun _ => hclean (fun ho => absurd ho hoccurs) fun ho => absurd ho hoccurs,
      fun _ => ⟨raw, hrun, rfl, Or.inl rfl⟩⟩
  have hlength := hfits.login login h.login_eq
  have hrun := (@patchFile_of_found c type keys raw _ _ h).trans (replaceKeys_eq h hfits hoccurs)
  cases hj : indexOf (afterJs5 c raw js5) login with
  | none =>
    rw [replaceKey_of_none hj] at hrun
    constructor
    · rintro ⟨written, hwritten, -, hsame | ⟨js5', login', h', -, hfound, -⟩⟩
      · rw [hrun] at hwritten
        have hafter : afterJs5 c raw js5 = raw := (Except.ok.inj hwritten).trans hsame
        refine hclean (fun _ _ => hafter) fun _ j hsome => ?_
        rw [hj] at hsome
        cases hsome
      · obtain ⟨rfl, rfl⟩ := h.unique h'
        exact absurd hj hfound
    · intro hc
      have hafter := hc.missing js5 login h hoccurs hj
      exact ⟨raw, hrun.trans (congrArg Except.ok hafter), rfl, Or.inl rfl⟩
  | some j =>
    rw [replaceKey_of_some hj hlength] at hrun
    have hle := (indexOf_eq_some hj).2
    have hiff := @complete_iff c type keys raw _ _ h hfits j hj
    have hsize : (applyBinaryPatches (overwrite (afterJs5 c raw js5) j
        (Hexadecimal.print c.login)) (secureWorldValidationBypassPatches type)).length =
        raw.length := by
      rw [length_applyBinaryPatches, length_overwrite (by omega), length_afterJs5 h hfits]
    constructor
    · rintro ⟨written, hwritten, -, hchanges⟩
      rw [hrun] at hwritten
      cases hwritten
      refine hclean (fun _ hnone => ?_) fun _ j' hj' => ?_
      · rw [hj] at hnone
        cases hnone
      · rw [hj] at hj'
        cases hj'
        refine hiff.mp fun x hne => ?_
        rcases hchanges with hsame | ⟨js5', login', h', -, -, hall⟩
        · exact absurd (congrArg (fun bs : List Byte => bs[x]?) hsame) hne
        · obtain ⟨rfl, rfl⟩ := h.unique h'
          exact hall x hne
    · intro hc
      refine ⟨_, hrun, hsize, Or.inr ⟨js5, login, h, hoccurs, ?_, ?_⟩⟩
      · rw [hj]
        exact Option.some_ne_none j
      · exact hiff.mpr (hc.moved js5 login h hoccurs j hj)

private theorem completeOrUnchanged_step (hfits : Fits c keys raw) :
    CompleteOrUnchanged c type keys raw ↔ Clean c type keys raw := by
  have hfails {e : PatchException} (hrun : (patchFile c type keys raw true).2 = .error e) :
      ¬ CompleteOrUnchanged c type keys raw := by
    rintro ⟨written, hwritten, -⟩
    rw [hrun] at hwritten
    cases hwritten
  have hcopies (hrun : (patchFile c type keys raw true).2 = .ok raw) :
      CompleteOrUnchanged c type keys raw := ⟨raw, hrun, rfl, Or.inl rfl⟩
  cases hjs5 : js5Key c keys raw with
  | error e =>
    exact ⟨fun h => absurd h (hfails (patchFile_of_js5_error hjs5)), fun h => absurd hjs5 (h.js5 e)⟩
  | ok js5 =>
    by_cases hsome : c.skipJs5Patch = false → js5 ≠ none
    swap
    · obtain ⟨hskip, hnone⟩ := Classical.not_imp.mp hsome
      obtain rfl := not_not.mp hnone
      have hno {js5 : Option (List Byte)} {login : List Byte} (h : Found c keys raw js5 login) :
          False := h.isSome hskip (Except.ok.inj (h.js5_eq.symm.trans hjs5))
      refine ⟨fun _ => ⟨fun e he => ?_, fun js5 h hne => ?_, fun _ _ h => (hno h).elim,
        fun _ _ h => (hno h).elim⟩, fun _ => hcopies (patchFile_of_js5_none hjs5 hskip)⟩
      · rw [hjs5] at he
        cases he
      · exact absurd (Except.ok.inj (h.symm.trans hjs5)) (hne hskip)
    · cases hlogin : loginKey keys raw with
      | error e =>
        exact ⟨fun h => absurd h (hfails (patchFile_of_login_error hjs5 hsome hlogin)),
          fun h => absurd hlogin (h.login js5 hjs5 hsome e)⟩
      | ok found =>
        cases found with
        | none =>
          have hno {js5 : Option (List Byte)} {login : List Byte}
              (h : Found c keys raw js5 login) : False := by
            have heq := h.login_eq.symm.trans hlogin
            cases heq
          refine ⟨fun _ => ⟨fun e he => ?_, fun _ _ _ e he => ?_, fun _ _ h => (hno h).elim,
            fun _ _ h => (hno h).elim⟩,
            fun _ => hcopies (patchFile_of_login_none hjs5 hsome hlogin)⟩
          · rw [hjs5] at he
            cases he
          · rw [hlogin] at he
            cases he
        | some login => exact completeOrUnchanged_of_found ⟨hjs5, hsome, hlogin⟩ hfits

/-- Behind any files, the next one is patched completely or copied unchanged exactly when it is
clean for the keys that are remembered. -/
theorem completeOrUnchanged_iff (c : Settings) (files : List (BinaryType × List Byte))
    (type : BinaryType) (raw : List Byte) (hfits : Fits c (keysAfter c files) raw) :
    CompleteOrUnchanged c type (keysAfter c files) raw ↔ Clean c type (keysAfter c files) raw :=
  completeOrUnchanged_step hfits

/-- A string of one digit between zero bytes. -/
def keyString (n : ℕ) (digit : Byte) : List Byte := 0 :: (List.replicate n digit ++ [0, 0, 0])

/-- `n` digits `digit`. -/
def repeated (n digit : ℕ) : ℤ := digit * ((16 ^ n - 1) / 15 : ℕ)

def repeatedSettings (skip : Bool) : Settings := ⟨repeated 1024 0xd, repeated 256 0xe, skip⟩

private theorem print_repeated :
    Hexadecimal.print (repeated 1024 0xd) = List.replicate 1024 0x64 ∧
      Hexadecimal.print (repeated 256 0xe) = List.replicate 256 0x65 := by
  decide +kernel

private theorem keysAfter_both : keysAfter (repeatedSettings false)
    [(.linux, keyString 256 0x63 ++ keyString 1024 0x62)] =
      ⟨some (List.replicate 1024 0x62), some (List.replicate 256 0x63)⟩ := by
  decide +kernel

private theorem fits_both : Fits (repeatedSettings false)
    ⟨some (List.replicate 1024 0x62), some (List.replicate 256 0x63)⟩ (keyString 1024 0x62) := by
  refine ⟨fun text htext => ?_, fun text htext => ?_⟩
  · cases htext
    rw [repeatedSettings, print_repeated.1, List.length_replicate, List.length_replicate]
  · cases htext
    rw [repeatedSettings, print_repeated.2, List.length_replicate, List.length_replicate]

theorem completeOrUnchanged_iff_both :
    CompleteOrUnchanged (repeatedSettings false) .linux
        (keysAfter (repeatedSettings false) [(.linux, keyString 256 0x63 ++ keyString 1024 0x62)])
        (keyString 1024 0x62) ↔
      Clean (repeatedSettings false) .linux
        (keysAfter (repeatedSettings false) [(.linux, keyString 256 0x63 ++ keyString 1024 0x62)])
        (keyString 1024 0x62) :=
  completeOrUnchanged_iff _ _ _ _ (keysAfter_both ▸ fits_both)

/-- After a file with both keys, one with the js5 key alone is written with that key replaced. -/
theorem not_completeOrUnchanged_js5 :
    ¬ CompleteOrUnchanged (repeatedSettings false) .linux
      (keysAfter (repeatedSettings false) [(.linux, keyString 256 0x63 ++ keyString 1024 0x62)])
      (keyString 1024 0x62) := by
  rw [keysAfter_both]
  intro h
  have hclean := (completeOrUnchanged_step fits_both).mp h
  have hnone : indexOf (keyString 1024 0x62) (List.replicate 1024 0x62) ≠ none := fun hnone =>
    indexOf_eq_none hnone 1 (List.prefix_append _ _)
  obtain ⟨i, hi⟩ := Option.ne_none_iff_exists'.mp hnone
  have hafter : afterJs5 (repeatedSettings false) (keyString 1024 0x62)
      (some (List.replicate 1024 0x62)) =
        overwrite (keyString 1024 0x62) i (List.replicate 1024 0x64) := by
    rw [afterJs5, hi]
    exact congrArg (overwrite _ i) print_repeated.1
  have habsent : indexOf (overwrite (keyString 1024 0x62) i (List.replicate 1024 0x64))
      (List.replicate 256 0x63) = none := by
    refine @indexOf_of_notMem _ (List.replicate 255 0x63) 0x63 fun hmem => ?_
    rcases List.mem_append.mp hmem with hmem | hmem
    · exact absurd (List.mem_of_mem_take hmem) (by decide +kernel)
    · rcases List.mem_append.mp hmem with hmem | hmem
      · exact absurd (List.eq_of_mem_replicate hmem) (by decide)
      · exact absurd (List.mem_of_mem_drop hmem) (by decide +kernel)
  have hsame := hclean.missing (some (List.replicate 1024 0x62)) (List.replicate 256 0x63)
    ⟨rfl, fun _ => Option.some_ne_none _, rfl⟩ (fun text htext => by cases htext; exact hnone)
    (by rw [hafter]; exact habsent)
  rw [hafter] at hsame
  have hmem : (0x64 : Byte) ∈ keyString 1024 0x62 := by
    rw [← hsame]
    refine List.mem_append_right _ (List.mem_append_left _ ?_)
    exact List.mem_replicate.mpr ⟨by decide, rfl⟩
  exact absurd hmem (by decide +kernel)

end Step

end ClientPatcher

end OpenNXT.Tools
