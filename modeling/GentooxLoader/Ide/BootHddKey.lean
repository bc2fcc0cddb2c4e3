import GentooxLoader.Lib.Sha1
import GentooxLoader.Lib.Rc4

/-!
# The key of the hard disk (drivers/ide/BootHddKey.c, drivers/ide/BootIde.c)

The first 0x30 bytes of the EEPROM are a hash of twenty bytes and, encrypted
under that hash, a confounder, the key and the region.  Four hardware versions
hash in four ways, and a version is taken when its hash of the decrypted bytes
is the one in front of them:

    hmacHddCalculation_eq   the hash, whatever was in memory before
    try_spec                one version tried on a fresh copy
    generate_eeprom_key     what `BootHddKeyGenerateEepromKeyData` and its caller return
-/

namespace Gentoox.Ide

open Cells Lib

/-! ## Algorithm -/

def hmac1hddReset (version : Nat) (context : SHA1Context) : SHA1Context :=
  { sha1Reset context with
    intermediateHash :=
      match version with
      | 9 => ⟨0x85F9E51A, 0xE04613D2, 0x6D86A50C, 0x77C32E3C, 0x4BD717A4⟩
      | 10 => ⟨0x72127625, 0x336472B9, 0xBE609BEA, 0xF55E226B, 0x99958DAC⟩
      | 11 => ⟨0x39B06E79, 0xC9BD25E8, 0xDBC6B498, 0x40B4389D, 0x86BBD7ED⟩
      | 12 => ⟨0x8058763a, 0xf97d4e0e, 0x865a9762, 0x8a3d920d, 0x08995b2c⟩
      | _ => (sha1Reset context).intermediateHash
    lengthLow := 512 }

def hmac2hddReset (version : Nat) (context : SHA1Context) : SHA1Context :=
  { sha1Reset context with
    intermediateHash :=
      match version with
      | 9 => ⟨0x5D7A9C6B, 0xE1922BEB, 0xB82CCDBC, 0x3137AB34, 0x486B52B3⟩
      | 10 => ⟨0x76441D41, 0x4DE82659, 0x2E8EF85E, 0xB256FACA, 0xC4FE2DE8⟩
      | 11 => ⟨0x9B49BED3, 0x84B430FC, 0x6B8749CD, 0xEBFE5FE5, 0xD96E7393⟩
      | 12 => ⟨0x01075307, 0xa2f1e037, 0x1186eeea, 0x88da9992, 0x168a5609⟩
      | _ => (sha1Reset context).intermediateHash
    lengthLow := 512 }

/-- `SHA1Result(&context, &context.Message_Block[0])` -/
def resultOwn (context : SHA1Context) : SHA1Context :=
  let r := sha1Result context
  { r.2 with messageBlock := write r.2.messageBlock 0 (r.1.getD []) }

/-- `context` and `result` are what the memory of the two held before. -/
def hmacHddCalculation (context : SHA1Context) (version : Nat) (texts : List (List UInt8))
    (result : List UInt8) : List UInt8 :=
  let context := texts.foldl sha1Input (hmac1hddReset version context)
  let context := hmac2hddReset version (resultOwn context)
  (sha1Result (sha1InputOwn context 0x14)).1.getD result

/-- The key up to 64 bytes, with `pad` on it and behind it. -/
def hmacState (key : List UInt8) (pad : UInt8) : List UInt8 :=
  (key.take 0x40).map (· ^^^ pad) ++ List.replicate (0x40 - key.length) pad

/-- `state2` is what the last twenty bytes of the array held before. -/
def hmacSha1 (context : SHA1Context) (state2 key text1 text2 result : List UInt8) : List UInt8 :=
  let context := [hmacState key 0x36, text1, text2].foldl sha1Input (sha1Reset context)
  let r := sha1Result context
  let context := sha1Input (sha1Reset r.2) (hmacState key 0x5C ++ r.1.getD state2)
  (sha1Result context).1.getD result

/-- What the variables hold before they are written; each call of
`HMAC_hdd_calculation` finds its own context. -/
structure Stack where
  keyContext : Nat → SHA1Context
  confirmContext : Nat → SHA1Context
  keyHash : List UInt8
  dataHashConfirm : List UInt8
  eepromDataLocalCopy : Nat → UInt8
  passwordContext : SHA1Context
  state2 : List UInt8

/-- The variables that the loop over the versions hands on. -/
structure KeySearch where
  keyHash : List UInt8
  dataHashConfirm : List UInt8
  localCopy : Nat → UInt8

/-- The body of the loop up to the comparison. -/
def KeySearch.try (stack : Stack) (eepromData : Nat → UInt8) (s : KeySearch) (counter : Nat) :
    KeySearch :=
  let localCopy := copy s.localCopy 0 eepromData 0 0x30
  let keyHash := hmacHddCalculation (stack.keyContext counter) counter
    [read localCopy 0 20] s.keyHash
  let r := rc4Crypt (read localCopy 20 8) (rc4PrepareKey keyHash)
  let localCopy := write localCopy 20 r.1
  let r := rc4Crypt (read localCopy 28 20) r.2
  let localCopy := write localCopy 28 r.1
  let dataHashConfirm := hmacHddCalculation (stack.confirmContext counter) counter
    [read localCopy 20 8, read localCopy 28 20] s.dataHashConfirm
  { keyHash, dataHashConfirm, localCopy }

def searchVersion (stack : Stack) (eepromData : Nat → UInt8) :
    List Nat → KeySearch → Nat × KeySearch
  | [], s => (0, s)
  | counter :: counters, s =>
    let s := s.try stack eepromData counter
    if read s.localCopy 0 0x14 = s.dataHashConfirm then (counter, s)
    else searchVersion stack eepromData counters s

/-- The version and the array at `pbResult` after the call. -/
def bootHddKeyGenerateEepromKeyData (stack : Stack) (eepromData result : Nat → UInt8) :
    Nat × (Nat → UInt8) :=
  let r := searchVersion stack eepromData (List.range' 9 4)
    ⟨stack.keyHash, stack.dataHashConfirm, stack.eepromDataLocalCopy⟩
  (r.1, copy result 0 r.2.localCopy 28 16)

/-- The two texts of `tsaHarddiskInfo[driveId]`, each as far as its length says. -/
structure Identity where
  identityModelNumber : List UInt8
  serial : List UInt8

/-- The return value and the array at `key` after the call. -/
def calculateDrivePassword (stack : Stack) (eeprom : Nat → UInt8) (disk : Identity)
    (key : Nat → UInt8) : Nat × (Nat → UInt8) :=
  let r := bootHddKeyGenerateEepromKeyData stack eeprom fun _ => 0
  let magic := hmacSha1 stack.passwordContext stack.state2 (read r.2 0 0x10)
    disk.identityModelNumber disk.serial (List.replicate 20 0)
  if r.1 = 0 then (1, key) else (0, write key 0 (magic.take 20))

/-! ## What is meant -/

def blank : SHA1Context := ⟨⟨0, 0, 0, 0, 0⟩, 0, 0, 0, fun _ => 0, false, 0⟩

/-- `HMAC_hdd_calculation` as a function of the version and the texts. -/
def hddHash (version : Nat) (texts : List (List UInt8)) : List UInt8 :=
  hmacHddCalculation blank version texts []

/-- The first 0x30 bytes of the EEPROM: a hash, and under its hash one stream. -/
def eepromBlock (version : Nat) (confounder key region : List UInt8) : List UInt8 :=
  let hash := hddHash version [confounder, key ++ region]
  hash ++ (rc4Crypt (confounder ++ (key ++ region)) (rc4PrepareKey (hddHash version [hash]))).1

/-- The bytes behind the hash, decrypted as one stream. -/
def decrypted (version : Nat) (eeprom : Nat → UInt8) : List UInt8 :=
  (rc4Crypt (read eeprom 20 28) (rc4PrepareKey (hddHash version [read eeprom 0 20]))).1

/-- The hash that `version` makes of the decrypted bytes is the one in front. -/
def Confirms (eeprom : Nat → UInt8) (version : Nat) : Prop :=
  read eeprom 0 20 =
    hddHash version [(decrypted version eeprom).take 8, (decrypted version eeprom).drop 8]

instance (eeprom : Nat → UInt8) (version : Nat) : Decidable (Confirms eeprom version) :=
  inferInstanceAs (Decidable (_ = _))

/-! ## The hash -/

section
variable {context context' : SHA1Context} {version : Nat}

theorem same_reset1 (context context' : SHA1Context) (version : Nat) :
    Same (hmac1hddReset version context) (hmac1hddReset version context') :=
  ⟨rfl, rfl, rfl, rfl, rfl, rfl, fun _ h => absurd h (Nat.not_lt_zero _)⟩

theorem same_reset2 (context context' : SHA1Context) (version : Nat) :
    Same (hmac2hddReset version context) (hmac2hddReset version context') :=
  ⟨rfl, rfl, rfl, rfl, rfl, rfl, fun _ h => absurd h (Nat.not_lt_zero _)⟩

/-- The first block, already in the hash, counts. -/
theorem taking_reset1 (context : SHA1Context) (version : Nat) :
    Taking (hmac1hddReset version context) 64 := ⟨rfl, rfl, rfl⟩

theorem taking_reset2 (context : SHA1Context) (version : Nat) :
    Taking (hmac2hddReset version context) 64 := ⟨rfl, rfl, rfl⟩

theorem same_texts (h : Same context context') (texts : List (List UInt8)) :
    Same (texts.foldl sha1Input context) (texts.foldl sha1Input context') := by
  induction texts generalizing context context' with
  | nil => exact h
  | cons text texts ih => exact ih (h.input text)

theorem taking_texts {n : Nat} (h : Taking context n) (texts : List (List UInt8))
    (hn : 8 * (n + texts.flatten.length) < 2 ^ 32) :
    Taking (texts.foldl sha1Input context) (n + texts.flatten.length) := by
  induction texts generalizing context n with
  | nil => exact h
  | cons text texts ih =>
    rw [List.flatten_cons, List.length_append] at hn ⊢
    rw [← Nat.add_assoc] at hn ⊢
    exact ih (h.input text (by omega)) hn

/-- The inner digest is the message of the second pass. -/
theorem hmacHddCalculation_inner {texts : List (List UInt8)} {digest : List UInt8}
    (hdigest : (sha1Result (texts.foldl sha1Input (hmac1hddReset version context))).1 = some digest)
    (hlen : digest.length = 20) (result : List UInt8) (context' : SHA1Context) :
    hmacHddCalculation context version texts result =
      (sha1Result (sha1Input (hmac2hddReset version context') digest)).1.getD result := by
  unfold hmacHddCalculation
  simp only
  rw [sha1InputOwn_eq (n := 0x14) rfl (by omega)]
  have hown : read (hmac2hddReset version (resultOwn
      (texts.foldl sha1Input (hmac1hddReset version context)))).messageBlock 0 0x14 = digest := by
    show read (write _ 0 (Option.getD _ [])) 0 0x14 = digest
    rw [hdigest]
    exact read_write_of_length hlen
  rw [hown, ((same_reset2 _ context' version).input digest).result.1]

/-- Nothing in memory before matters, and there is a digest. -/
theorem hmacHddCalculation_eq (context : SHA1Context) (version : Nat) {texts : List (List UInt8)}
    (htexts : texts.flatten.length < 2 ^ 20) (result : List UInt8) :
    hmacHddCalculation context version texts result = hddHash version texts ∧
      (hddHash version texts).length = 20 := by
  obtain ⟨digest, hdigest, hlen⟩ :=
    (taking_texts (taking_reset1 context version) texts (by omega)).result
  obtain ⟨outer, houter, houterLen⟩ :=
    ((taking_reset2 blank version).input digest (by omega)).result
  have hblank := hdigest
  rw [((same_texts (same_reset1 context blank version) texts).result).1] at hblank
  unfold hddHash
  rw [hmacHddCalculation_inner hdigest hlen _ blank, hmacHddCalculation_inner hblank hlen _ blank,
    houter]
  exact ⟨rfl, houterLen⟩

end

/-! ## One version -/

section
variable (stack : Stack) (eeprom : Nat → UInt8)

/-- What the loop compares, and where it leaves the decrypted bytes. -/
structure Tried (s : KeySearch) (version : Nat) : Prop where
  hash : read s.localCopy 0 20 = read eeprom 0 20
  plain : read s.localCopy 28 20 = (decrypted version eeprom).drop 8
  confirm : s.dataHashConfirm =
    hddHash version [(decrypted version eeprom).take 8, (decrypted version eeprom).drop 8]

/-- Two calls of the cipher decrypt the stream, on a copy made anew. -/
theorem try_spec (s : KeySearch) (version : Nat) :
    Tried eeprom (s.try stack eeprom version) version := by
  have hhash : read (copy s.localCopy 0 eeprom 0 0x30) 0 20 = read eeprom 0 20 :=
    read_copy (d := 0) (s := 0) (i := 0) (by omega)
  have hconfounder : read (copy s.localCopy 0 eeprom 0 0x30) 20 8 = read eeprom 20 8 :=
    read_copy (d := 0) (s := 0) (i := 20) (by omega)
  have hreal : read (copy s.localCopy 0 eeprom 0 0x30) 28 20 = read eeprom 28 20 :=
    read_copy (d := 0) (s := 0) (i := 28) (by omega)
  -- the two calls go on with one key
  have hone : read eeprom 20 28 = read eeprom 20 8 ++ read eeprom 28 20 := read_add eeprom 20 8 20
  have hkey : ∀ old, hmacHddCalculation (stack.keyContext version) version [read eeprom 0 20] old =
      hddHash version [read eeprom 0 20] := fun old =>
    (hmacHddCalculation_eq _ _ (by simp) old).1
  obtain ⟨r, hr⟩ : ∃ r, rc4Crypt (read eeprom 20 8)
    (rc4PrepareKey (hddHash version [read eeprom 0 20])) = r := ⟨_, rfl⟩
  obtain ⟨r', hr'⟩ : ∃ r', rc4Crypt (read eeprom 28 20) r.2 = r' := ⟨_, rfl⟩
  have hdecrypted : decrypted version eeprom = r.1 ++ r'.1 := by
    unfold decrypted
    rw [hone, rc4Crypt_append, hr, hr']
  have hlen : r.1.length = 8 := by rw [← hr, length_rc4Crypt, length_read]
  have hlen' : r'.1.length = 20 := by rw [← hr', length_rc4Crypt, length_read]
  have htry : s.try stack eeprom version =
      ⟨hddHash version [read eeprom 0 20], hddHash version [r.1, r'.1],
        write (write (copy s.localCopy 0 eeprom 0 0x30) 20 r.1) 28 r'.1⟩ := by
    unfold KeySearch.try
    simp only [hhash, hconfounder, hkey, hr]
    rw [read_write_of_outside _ 20 28 20 _ (by omega), hreal, hr',
      read_write_of_outside _ 28 20 8 _ (by omega), read_write_of_length hlen,
      read_write_of_length hlen',
      (hmacHddCalculation_eq _ _ (by simp [hlen, hlen']) s.dataHashConfirm).1]
  rw [htry]
  constructor
  · show read (write (write _ 20 r.1) 28 r'.1) 0 20 = _
    rw [read_write_of_outside _ 28 0 20 _ (by omega), read_write_of_outside _ 20 0 20 _ (by omega),
      hhash]
  · show read (write _ 28 r'.1) 28 20 = _
    rw [read_write_of_length hlen', hdecrypted, List.drop_left' hlen]
  · rw [hdecrypted, List.take_left' hlen, List.drop_left' hlen]

theorem try_confirms (s : KeySearch) (version : Nat) :
    read (s.try stack eeprom version).localCopy 0 0x14 =
      (s.try stack eeprom version).dataHashConfirm ↔ Confirms eeprom version := by
  have htried := try_spec stack eeprom s version
  rw [htried.hash, htried.confirm]
  rfl

/-! ## The loop over the versions -/

theorem searchVersion_none (counters : List Nat) (s : KeySearch)
    (hnone : ∀ v ∈ counters, ¬ Confirms eeprom v) :
    (searchVersion stack eeprom counters s).1 = 0 := by
  induction counters generalizing s with
  | nil => rfl
  | cons counter counters ih =>
    unfold searchVersion
    simp only [try_confirms]
    rw [if_neg (hnone counter (List.mem_cons_self ..))]
    exact ih _ fun v hv => hnone v (List.mem_cons_of_mem _ hv)

/-- The copy is that of the first version confirmed. -/
theorem searchVersion_first (before after : List Nat) (version : Nat) (s : KeySearch)
    (hbefore : ∀ v ∈ before, ¬ Confirms eeprom v) (hversion : Confirms eeprom version) :
    ∃ s', searchVersion stack eeprom (before ++ version :: after) s = (version, s') ∧
      Tried eeprom s' version := by
  induction before generalizing s with
  | nil =>
    refine ⟨_, ?_, try_spec stack eeprom s version⟩
    rw [List.nil_append]
    unfold searchVersion
    simp only [try_confirms]
    rw [if_pos hversion]
  | cons counter before ih =>
    rw [List.cons_append]
    unfold searchVersion
    simp only [try_confirms]
    rw [if_neg (hbefore counter (List.mem_cons_self ..))]
    exact ih _ fun v hv => hbefore v (List.mem_cons_of_mem _ hv)

/-! ## Top theorem -/

theorem search_none (result : Nat → UInt8) (hnone : ∀ v, 9 ≤ v → v ≤ 12 → ¬ Confirms eeprom v) :
    (bootHddKeyGenerateEepromKeyData stack eeprom result).1 = 0 := by
  unfold bootHddKeyGenerateEepromKeyData
  simp only
  apply searchVersion_none
  intro v hv
  obtain ⟨h9, h13⟩ := List.mem_range'_1.1 hv
  exact hnone v h9 (by omega)

theorem versions_split {v : Nat} (h9 : 9 ≤ v) (h12 : v ≤ 12) :
    List.range' 9 4 = List.range' 9 (v - 9) ++ v :: List.range' (v + 1) (12 - v) := by
  obtain ⟨k, rfl⟩ := Nat.exists_eq_add_of_le h9
  rw [← List.range'_succ, Nat.add_sub_cancel_left, List.range'_append_1]
  congr 1
  omega

/-- The first version confirmed, with sixteen of the bytes it decrypts. -/
theorem search_first (result : Nat → UInt8) {v : Nat} (h9 : 9 ≤ v) (h12 : v ≤ 12)
    (hversion : Confirms eeprom v) (hleast : ∀ w, 9 ≤ w → w < v → ¬ Confirms eeprom w) :
    bootHddKeyGenerateEepromKeyData stack eeprom result =
      (v, write result 0 (((decrypted v eeprom).drop 8).take 16)) := by
  have hbefore : ∀ w ∈ List.range' 9 (v - 9), ¬ Confirms eeprom w := fun w hw => by
    obtain ⟨hw9, hwv⟩ := List.mem_range'_1.1 hw
    exact hleast w hw9 (by omega)
  obtain ⟨s', hs', htried⟩ := searchVersion_first stack eeprom _ (List.range' (v + 1) (12 - v)) v
    ⟨stack.keyHash, stack.dataHashConfirm, stack.eepromDataLocalCopy⟩ hbefore hversion
  unfold bootHddKeyGenerateEepromKeyData
  rw [versions_split h9 h12, hs', ← htried.plain]
  unfold copy
  rw [take_read, Nat.min_eq_left (by omega)]

theorem generated_ne_zero (result : Nat → UInt8) {v : Nat} (h9 : 9 ≤ v) (h12 : v ≤ 12)
    (hversion : Confirms eeprom v) :
    (bootHddKeyGenerateEepromKeyData stack eeprom result).1 ≠ 0 := by
  have hex : ∃ v, 9 ≤ v ∧ v ≤ 12 ∧ Confirms eeprom v := ⟨v, h9, h12, hversion⟩
  obtain ⟨hf9, hf12, hf⟩ := Nat.find_spec hex
  rw [search_first stack eeprom result hf9 hf12 hf fun w hw9 hw hw' =>
    Nat.find_min hex hw ⟨hw9, by omega, hw'⟩]
  exact Nat.ne_of_gt (by omega)

theorem length_eepromBlock (version : Nat) {confounder key region : List UInt8}
    (hconfounder : confounder.length = 8) (hkey : key.length = 16) (hregion : region.length = 4) :
    (eepromBlock version confounder key region).length = 0x30 := by
  unfold eepromBlock
  rw [List.length_append, length_rc4Crypt,
    (hmacHddCalculation_eq blank version (by simp [hconfounder, hkey, hregion]) []).2,
    List.length_append, List.length_append, hconfounder, hkey, hregion]

/-- A block decrypts to what was encrypted, and its version confirms it. -/
theorem eepromBlock_spec (version : Nat) {confounder key region : List UInt8}
    (hconfounder : confounder.length = 8) (hkey : key.length = 16) (hregion : region.length = 4)
    (hblock : read eeprom 0 0x30 = eepromBlock version confounder key region) :
    decrypted version eeprom = confounder ++ (key ++ region) ∧ Confirms eeprom version := by
  have hlen : (hddHash version [confounder, key ++ region]).length = 20 :=
    (hmacHddCalculation_eq blank version (by simp [hconfounder, hkey, hregion]) []).2
  have hparts : read eeprom 0 0x30 = read eeprom 0 20 ++ read eeprom 20 28 := read_add eeprom 0 20 28
  rw [hparts] at hblock
  obtain ⟨hhash, hcipher⟩ := List.append_inj hblock (by rw [length_read, hlen])
  have hdecrypted : decrypted version eeprom = confounder ++ (key ++ region) := by
    unfold decrypted
    rw [hhash, hcipher, rc4Crypt_twice]
  refine ⟨hdecrypted, ?_⟩
  unfold Confirms
  rw [hdecrypted, List.take_left' hconfounder, List.drop_left' hconfounder, hhash]

/-- **The key of the disk.**  From a block formed for a version that is the first
confirmed, that version and the key; no version confirmed exactly when 0 is
returned, and exactly then the caller gets 1 and finds his array as it was. -/
theorem generate_eeprom_key (result key : Nat → UInt8) (disk : Identity) :
    (∀ (v : Nat) (confounder : List.Vector UInt8 8) (hddKey : List.Vector UInt8 16)
      (region : List.Vector UInt8 4), 9 ≤ v → v ≤ 12 →
      read eeprom 0 0x30 = eepromBlock v confounder.toList hddKey.toList region.toList →
      (∀ w, 9 ≤ w → w < v → ¬ Confirms eeprom w) →
      bootHddKeyGenerateEepromKeyData stack eeprom result = (v, write result 0 hddKey.toList)) ∧
    ((bootHddKeyGenerateEepromKeyData stack eeprom result).1 = 0 ↔
      ∀ v, 9 ≤ v → v ≤ 12 → ¬ Confirms eeprom v) ∧
    (calculateDrivePassword stack eeprom disk key = (1, key) ↔
      ∀ v, 9 ≤ v → v ≤ 12 → ¬ Confirms eeprom v) := by
  have hzero : ∀ result, (bootHddKeyGenerateEepromKeyData stack eeprom result).1 = 0 ↔
      ∀ v, 9 ≤ v → v ≤ 12 → ¬ Confirms eeprom v := fun result =>
    ⟨fun h v h9 h12 hv => generated_ne_zero stack eeprom result h9 h12 hv h,
      search_none stack eeprom result⟩
  refine ⟨fun v confounder hddKey region h9 h12 hblock hleast => ?_, hzero result, ?_⟩
  · obtain ⟨hdecrypted, hversion⟩ := eepromBlock_spec eeprom v confounder.toList_length
      hddKey.toList_length region.toList_length hblock
    rw [search_first stack eeprom result h9 h12 hversion hleast, hdecrypted,
      List.drop_left' confounder.toList_length, List.take_left' hddKey.toList_length]
  · rw [← hzero fun _ => 0]
    unfold calculateDrivePassword
    simp only
    split
    · rename_i h
      exact ⟨fun _ => h, fun _ => rfl⟩
    · rename_i h
      exact ⟨fun h' => absurd (congrArg Prod.fst h') Nat.zero_ne_one, fun h' => absurd h' h⟩

end

/-- A key formed for the first version, on a stack full of ones. -/
theorem generate_eeprom_key_first :
    bootHddKeyGenerateEepromKeyData
      ⟨fun _ => blank, fun _ => blank, [], [], fun _ => 1, blank, List.replicate 20 1⟩
      (write (fun _ => 0) 0
        (eepromBlock 9 (List.replicate 8 3) ((List.range 16).map UInt8.ofNat) [1, 0, 0, 0]))
      (fun _ => 0) = (9, write (fun _ => 0) 0 ((List.range 16).map UInt8.ofNat)) :=
  (generate_eeprom_key _ _ _ (fun _ => 0) ⟨[], []⟩).1 9 ⟨List.replicate 8 3, rfl⟩
    ⟨(List.range 16).map UInt8.ofNat, rfl⟩ ⟨[1, 0, 0, 0], rfl⟩ (by decide) (by decide)
    (read_write_of_length (length_eepromBlock 9 rfl rfl rfl)) fun _ h9 h => by omega

end Gentoox.Ide
