import GentooxLoader.Ide.BootHddKey
import GentooxLoader.Lib.Sha1Blocks

/-!
# The hash of the key, in two passes (drivers/ide/BootHddKey.c)

`HMAC_hdd_calculation` keeps the inner digest in the block of its own context and
feeds it back from there, so a context that has no digest gives what is left in
the block instead:

    hmacHddCalculation_outer   the second pass over what the first one leaves
    hmacHddCalculation_spec    the outer hash of the inner digest, whatever the
                               pieces and whatever was in memory
-/

namespace Gentoox.Ide

open Cells Lib

/-- The states that the two passes start from, behind a block each. -/
def hmac1hddState (version : Nat) : SHA1State := (hmac1hddReset version blank).intermediateHash

def hmac2hddState (version : Nat) : SHA1State := (hmac2hddReset version blank).intermediateHash

/-- The twenty bytes in the block before the second pass: the inner digest, or if
the message has no room in the counters the first ones of the last block. -/
def innerBytes (version : Nat) (message : List UInt8) : List UInt8 :=
  if 512 + message.length * 8 < 2 ^ 64 then sha1From (hmac1hddState version) 512 message
  else ((message.take (2 ^ 61 - 64)).drop (2 ^ 61 - 128)).take 20

section
variable (context : SHA1Context) (version : Nat)

theorem absorbed_reset1 : Absorbed (hmac1hddState version) 512 [] (hmac1hddReset version context) :=
  absorbed_nil (c := hmac1hddReset version context) rfl rfl rfl rfl rfl

theorem absorbed_reset2 : Absorbed (hmac2hddState version) 512 [] (hmac2hddReset version context) :=
  absorbed_nil (c := hmac2hddReset version context) rfl rfl rfl rfl rfl

theorem length_sha1From (s : SHA1State) (counted : Nat) (message : List UInt8) :
    (sha1From s counted message).length = 20 := length_bytes _

/-- What the first pass leaves in the block. -/
theorem resultOwn_block (texts : List (List UInt8)) :
    read (resultOwn (texts.foldl sha1Input (hmac1hddReset version context))).messageBlock 0 20 =
      innerBytes version texts.flatten := by
  have hreset := absorbed_reset1 context version
  rw [foldl_sha1Input hreset.computed]
  generalize texts.flatten = message
  unfold innerBytes
  split
  · rename_i hroom
    have habsorbed := hreset.inputLoop (by decide) message (by rw [List.length_nil]; omega)
    unfold resultOwn
    simp only
    rw [habsorbed.result, Option.getD_some, List.nil_append]
    exact read_write_of_length (length_sha1From _ _ _)
  · rename_i hover
    obtain ⟨hcorrupted, hblock⟩ := hreset.overlong (by decide) (k := 2 ^ 61 - 65) (by omega)
      (show 2 ^ 61 - 65 < message.length by omega)
    rw [show 2 ^ 61 - 65 + 1 = 2 ^ 61 - 64 by omega,
      show (2 ^ 61 - 65) / 64 * 64 = 2 ^ 61 - 128 by omega] at hblock
    have hown : resultOwn (inputLoop (hmac1hddReset version context) message) =
        inputLoop (hmac1hddReset version context) message := by
      unfold resultOwn sha1Result
      rw [if_pos hcorrupted]
      simp only [Option.getD_none, write_nil]
    rw [hown, ← hblock, take_read]
    rfl

/-- **The second pass.** -/
theorem hmacHddCalculation_outer (texts : List (List UInt8)) (result : List UInt8) :
    hmacHddCalculation context version texts result =
      sha1From (hmac2hddState version) 512 (innerBytes version texts.flatten) := by
  have hlen : (innerBytes version texts.flatten).length = 20 := by
    rw [← resultOwn_block context version texts, length_read]
  have hreset := absorbed_reset2
    (resultOwn (texts.foldl sha1Input (hmac1hddReset version context))) version
  unfold hmacHddCalculation
  simp only
  rw [sha1InputOwn_eq (n := 0x14) rfl (by omega), sha1Input_eq_loop hreset.computed]
  have hown : read (hmac2hddReset version (resultOwn
      (texts.foldl sha1Input (hmac1hddReset version context)))).messageBlock 0 0x14 =
        innerBytes version texts.flatten := resultOwn_block context version texts
  rw [hown, (hreset.inputLoop (by decide) _ (by rw [hlen, List.length_nil]; omega)).result,
    Option.getD_some, List.nil_append]

/-! ## Top theorem -/

/-- **The hash.**  It is the outer SHA-1 of the inner digest of all the texts in one
piece, as long as their length fits the counter of bits; and in any case it
depends on nothing but that piece. -/
theorem hmacHddCalculation_spec (texts : List (List UInt8)) (result : List UInt8) :
    (512 + texts.flatten.length * 8 < 2 ^ 64 →
      hmacHddCalculation context version texts result =
        sha1From (hmac2hddState version) 512
          (sha1From (hmac1hddState version) 512 texts.flatten)) ∧
    ∀ (context' : SHA1Context) (texts' : List (List UInt8)) (result' : List UInt8),
      texts'.flatten = texts.flatten →
      hmacHddCalculation context' version texts' result' =
        hmacHddCalculation context version texts result := by
  refine ⟨fun hroom => ?_, fun context' texts' result' h => ?_⟩
  · rw [hmacHddCalculation_outer, innerBytes, if_pos hroom]
  · rw [hmacHddCalculation_outer, hmacHddCalculation_outer, h]

end

end Gentoox.Ide
