import Mathlib.Data.UInt
import Mathlib.Data.Vector.Basic
import Mathlib.Logic.Function.Iterate

/-!
# RC4 (lib/crypt/rc4.c)

    rc4Crypt_append     a stream may be cut in two
    rc4Crypt_twice      from equal keys, the second call undoes the first
    rc4Calls_flatten    any number of calls on one key are one
    index1_lt           of a key of 1 to 256 bytes only these are read
    permutes_keySetup   the state has each byte once while the key is prepared
    rc4_stream          the three together
-/

namespace Gentoox.Lib

/-! ## Algorithm -/

structure RC4Key where
  state : Vector UInt8 256
  x : UInt8
  y : UInt8

def swapByte (state : Vector UInt8 256) (a b : UInt8) : Vector UInt8 256 :=
  state.swap a.toNat b.toNat a.toNat_lt b.toNat_lt

/-- The variables of `rc4_prepare_key`. -/
structure KeySetup where
  state : Vector UInt8 256
  index1 : UInt8
  index2 : UInt8

def KeySetup.step (keyData : List UInt8) (s : KeySetup) (counter : UInt8) : KeySetup :=
  let index2 := keyData.getD s.index1.toNat 0 + s.state[counter.toFin] + s.index2
  { state := swapByte s.state counter index2
    index1 := UInt8.ofNat ((s.index1.toNat + 1) % keyData.length)
    index2 }

def rc4PrepareKey (keyData : List UInt8) : RC4Key :=
  let s := (List.range 256).foldl
    (fun (s : KeySetup) counter => s.step keyData (UInt8.ofNat counter))
    ⟨Vector.ofFn fun i => UInt8.ofFin i, 0, 0⟩
  ⟨s.state, 0, 0⟩

/-- One turn of `rc4_crypt`: the byte to combine with and the key. -/
def RC4Key.next (key : RC4Key) : UInt8 × RC4Key :=
  let x := key.x + 1
  let y := key.state[x.toFin] + key.y
  let state := swapByte key.state x y
  (state[(state[x.toFin] + state[y.toFin]).toFin], ⟨state, x, y⟩)

/-- The buffer and the key after the call. -/
def rc4Crypt : List UInt8 → RC4Key → List UInt8 × RC4Key
  | [], key => ([], key)
  | b :: buffer, key =>
    let r := rc4Crypt buffer key.next.2
    ((b ^^^ key.next.1) :: r.1, r.2)

/-- The key after the turn. -/
def RC4Key.turn (key : RC4Key) : RC4Key := key.next.2

/-! ## Streams -/

@[simp] theorem length_rc4Crypt (buffer : List UInt8) (key : RC4Key) :
    (rc4Crypt buffer key).1.length = buffer.length := by
  induction buffer generalizing key with
  | nil => rfl
  | cons b buffer ih => exact congrArg (· + 1) (ih key.next.2)

/-- Two calls one after the other are one call. -/
theorem rc4Crypt_append (l l' : List UInt8) (key : RC4Key) :
    rc4Crypt (l ++ l') key =
      ((rc4Crypt l key).1 ++ (rc4Crypt l' (rc4Crypt l key).2).1,
        (rc4Crypt l' (rc4Crypt l key).2).2) := by
  induction l generalizing key with
  | nil => rfl
  | cons b l ih =>
    show ((b ^^^ key.next.1) :: (rc4Crypt (l ++ l') key.next.2).1,
      (rc4Crypt (l ++ l') key.next.2).2) = _
    rw [ih]
    rfl

theorem rc4Crypt_twice (buffer : List UInt8) (key : RC4Key) :
    rc4Crypt (rc4Crypt buffer key).1 key = (buffer, (rc4Crypt buffer key).2) := by
  induction buffer generalizing key with
  | nil => rfl
  | cons b buffer ih =>
    show (((b ^^^ key.next.1) ^^^ key.next.1) ::
      (rc4Crypt (rc4Crypt buffer key.next.2).1 key.next.2).1,
      (rc4Crypt (rc4Crypt buffer key.next.2).1 key.next.2).2) = _
    rw [ih, UInt8.xor_assoc, UInt8.xor_self, UInt8.xor_zero]
    rfl

theorem rc4Crypt_key (buffer : List UInt8) (key : RC4Key) :
    (rc4Crypt buffer key).2 = RC4Key.turn^[buffer.length] key := by
  induction buffer generalizing key with
  | nil => rfl
  | cons b buffer ih =>
    rw [List.length_cons, Function.iterate_succ_apply]
    exact ih key.turn

/-! ## Calls on one key -/

/-- One call for each buffer, and the key afterwards. -/
def rc4Calls : List (List UInt8) → RC4Key → List (List UInt8) × RC4Key
  | [], key => ([], key)
  | buffer :: buffers, key =>
    let r := rc4Crypt buffer key
    let s := rc4Calls buffers r.2
    (r.1 :: s.1, s.2)

/-- Any number of calls are one, by induction on the calls that are left. -/
theorem rc4Calls_flatten (buffers : List (List UInt8)) (key : RC4Key) :
    (rc4Calls buffers key).1.flatten = (rc4Crypt buffers.flatten key).1 ∧
      (rc4Calls buffers key).2 = (rc4Crypt buffers.flatten key).2 := by
  induction buffers generalizing key with
  | nil => exact ⟨rfl, rfl⟩
  | cons buffer buffers ih =>
    obtain ⟨hout, hkey⟩ := ih (rc4Crypt buffer key).2
    rw [List.flatten_cons, rc4Crypt_append, ← hout, ← hkey]
    exact ⟨rfl, rfl⟩

/-! ## The state -/

/-- The bytes from 0 to 255. -/
def allBytes : Vector UInt8 256 := Vector.ofFn fun i => UInt8.ofFin i

/-- The state has each byte once. -/
def Permutes (state : Vector UInt8 256) : Prop := state.Perm allBytes

/-- Two places change what they hold; they may be the same. -/
theorem Permutes.swapByte {state : Vector UInt8 256} (h : Permutes state) (a b : UInt8) :
    Permutes (swapByte state a b) :=
  (Vector.swap_perm a.toNat_lt b.toNat_lt).trans h

/-- The variables of `rc4_prepare_key` after some turns of its second loop. -/
def keySetup (keyData : List UInt8) (n : Nat) : KeySetup :=
  (List.range n).foldl (fun (s : KeySetup) counter => s.step keyData (UInt8.ofNat counter))
    ⟨allBytes, 0, 0⟩

theorem keySetup_succ (keyData : List UInt8) (n : Nat) :
    keySetup keyData (n + 1) = (keySetup keyData n).step keyData (UInt8.ofNat n) := by
  rw [keySetup, List.range_succ, List.foldl_concat]
  rfl

/-- The bytes of the key that are read are bytes of the key. -/
theorem index1_lt {keyData : List UInt8} (hpos : 1 ≤ keyData.length) (hlen : keyData.length ≤ 256)
    (n : Nat) : (keySetup keyData n).index1.toNat < keyData.length := by
  induction n with
  | zero => exact hpos
  | succ n ih =>
    have hmod := Nat.mod_lt ((keySetup keyData n).index1.toNat + 1) hpos
    rw [keySetup_succ]
    show (UInt8.ofNat _).toNat < _
    rw [UInt8.toNat_ofNat', Nat.mod_eq_of_lt (by omega)]
    exact hmod

theorem permutes_keySetup (keyData : List UInt8) (n : Nat) :
    Permutes (keySetup keyData n).state := by
  induction n with
  | zero => exact Vector.Perm.refl _
  | succ n ih =>
    rw [keySetup_succ]
    exact ih.swapByte _ _

theorem Permutes.turn {key : RC4Key} (h : Permutes key.state) : Permutes key.turn.state :=
  h.swapByte _ _

/-- After any number of turns. -/
theorem Permutes.iterate {key : RC4Key} (h : Permutes key.state) (n : Nat) :
    Permutes (RC4Key.turn^[n] key).state := by
  induction n generalizing key with
  | zero => exact h
  | succ n ih =>
    rw [Function.iterate_succ_apply]
    exact ih h.turn

theorem permutes_prepareKey (keyData : List UInt8) : Permutes (rc4PrepareKey keyData).state := by
  have hstate : (rc4PrepareKey keyData).state = (keySetup keyData 256).state := by
    unfold rc4PrepareKey keySetup allBytes
    rfl
  rw [hstate]
  exact permutes_keySetup keyData 256

/-! ## Top theorem -/

/-- **The stream.**  Calls on one key give what one call gives; a second call on an equal
key undoes the first; and the state has each byte once, through the turns of
`rc4_prepare_key` and those of the calls. -/
theorem rc4_stream (keyData : List UInt8) (buffers : List (List UInt8)) :
    ((rc4Calls buffers (rc4PrepareKey keyData)).1.flatten =
        (rc4Crypt buffers.flatten (rc4PrepareKey keyData)).1 ∧
      (rc4Calls buffers (rc4PrepareKey keyData)).2 =
        (rc4Crypt buffers.flatten (rc4PrepareKey keyData)).2) ∧
    (rc4Crypt (rc4Crypt buffers.flatten (rc4PrepareKey keyData)).1 (rc4PrepareKey keyData)).1 =
      buffers.flatten ∧
    (∀ n, Permutes (keySetup keyData n).state) ∧
    (∀ n, Permutes (RC4Key.turn^[n] (rc4PrepareKey keyData)).state) ∧
    Permutes (rc4Calls buffers (rc4PrepareKey keyData)).2.state := by
  have hprepared := permutes_prepareKey keyData
  obtain ⟨hout, hkey⟩ := rc4Calls_flatten buffers (rc4PrepareKey keyData)
  refine ⟨⟨hout, hkey⟩, ?_, permutes_keySetup keyData, hprepared.iterate, ?_⟩
  · rw [rc4Crypt_twice]
  · rw [hkey, rc4Crypt_key]
    exact hprepared.iterate _

end Gentoox.Lib
