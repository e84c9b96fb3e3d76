import DjangoAbsurd.Library.BigEndian
import Mathlib.Data.List.Forall2
import Mathlib.Data.List.GetD
import Mathlib.Tactic.Linarith

/-!
# Identifiers that carry a moment

The first six bytes of a UUIDv7 are the milliseconds since the epoch at which it was drawn, the
most significant first. `uuid` values are compared byte by byte, so the identifiers drawn from one
moment to another are those between the floors of the two moments, whatever their random bytes.

Moments are microseconds since the epoch.
-/

namespace DjangoAbsurd.Partitions

/-- A `uuid`, as `uuid_send` gives its bytes. -/
structure Uuid where
  bytes : List ℕ
  length_bytes : bytes.length = 16
  small : ∀ b ∈ bytes, b < 256
  deriving DecidableEq

/-- `uuid` values are compared byte by byte. -/
instance : LT Uuid := ⟨fun a b => a.bytes < b.bytes⟩

instance : LE Uuid := ⟨fun a b => ¬ b < a⟩

instance (a b : Uuid) : Decidable (a < b) := inferInstanceAs (Decidable (a.bytes < b.bytes))

instance (a b : Uuid) : Decidable (a ≤ b) := inferInstanceAs (Decidable (¬ b < a))

/-- `get_byte(uuid_send(id), i)`. -/
def Uuid.byte (id : Uuid) (i : ℕ) : ℕ := id.bytes.getD i 0

/-- `floor(extract(epoch from ts) * 1000)`. -/
def epochMs (ts : ℤ) : ℤ := ts / 1000

/-- The largest number of six bytes. -/
def maxEpochMs : ℤ := 281474976710655

/-- The loop over the first six bytes. -/
def setTimestamp (tsMs : ℤ) (b : List ℕ) : List ℕ :=
  (List.range 6).foldl (fun b i => b.set i (tsMs / 256 ^ (5 - i) % 256).toNat) b

/-- The first six bytes. -/
def timestampBytes (tsMs : ℤ) : List ℕ :=
  (List.range 6).map (fun i => (tsMs / 256 ^ (5 - i) % 256).toNat)

theorem setTimestamp_eq (tsMs : ℤ) :
  setTimestamp tsMs (List.replicate 16 0) = timestampBytes tsMs ++ List.replicate 10 0
  := rfl

theorem timestampBytes_lt (tsMs : ℤ) :
  ∀ b ∈ timestampBytes tsMs, b < 256
  := by
  intro b hb
  obtain ⟨i, -, rfl⟩ := List.mem_map.mp hb
  omega

/-- The bytes of a number of milliseconds are its digits. -/
theorem timestampBytes_eq {tsMs : ℤ} (h : 0 ≤ tsMs) :
  timestampBytes tsMs = BigEndian.digits 256 6 tsMs.toNat
  := by
  obtain ⟨n, rfl⟩ := Int.eq_ofNat_of_zero_le h
  have hbyte : ∀ i : ℕ, ((n : ℤ) / 256 ^ i % 256).toNat = n / 256 ^ i % 256 := by
    intro i
    have hcast : ((n : ℤ) / 256 ^ i % 256) = ((n / 256 ^ i % 256 : ℕ) : ℤ) := by push_cast; rfl
    rw [hcast, Int.toNat_natCast]
  simp only [timestampBytes, List.range, List.range.loop, List.map_cons, List.map_nil, hbyte,
    BigEndian.digits, Int.toNat_natCast]

@[simp]
theorem length_timestampBytes (tsMs : ℤ) :
  (timestampBytes tsMs).length = 6
  := rfl

theorem Uuid.byte_lt (id : Uuid) (i : ℕ) :
  id.byte i < 256
  := by
  rw [Uuid.byte, List.getD_eq_getElem?_getD]
  cases hget : id.bytes[i]? with
  | none => exact Nat.zero_lt_succ 255
  | some b => exact id.small b (List.mem_of_getElem? hget)

/-! ### Drawing -/

/-- The last ten bytes of a floor. -/
def zeroBytes : List ℕ := [7 <<< 4, 0, 128, 0, 0, 0, 0, 0, 0, 0]

/-- The identifier is a UUIDv7 drawn at a number of milliseconds. -/
structure Uuid.DrawnAt (id : Uuid) (ms : ℕ) : Prop where
  bytes : ∃ rest, id.bytes = BigEndian.digits 256 6 ms ++ rest ∧ List.Forall₂ (· ≤ ·) zeroBytes rest
  version : id.byte 6 >>> 4 = 7
  small : ms < 256 ^ 6

/-- The server: its own `pg_catalog.uuidv7()`, where it has it, by the moment of the server's clock
it draws at and its random bytes. -/
structure Server where
  uuidv7 : Option (ℤ → Uuid → Uuid)
  drawn : ∀ draw, uuidv7 = some draw → ∀ clock rnd, 0 ≤ epochMs clock →
    epochMs clock ≤ maxEpochMs → (draw clock rnd).DrawnAt (epochMs clock).toNat

/-- The moment identifiers are drawn at: that of the server's clock where it draws them itself, and
otherwise `absurd.current_time()`. -/
def Server.moment (server : Server) (clock now : ℤ) : ℤ :=
  if server.uuidv7.isSome then clock else now

/-- The bytes of a new identifier: the timestamp, random bytes, and in two of them the version and
the variant. -/
def portableBytes (tsMs : ℤ) (rnd : Uuid) : List ℕ :=
  let b := setTimestamp tsMs (List.replicate 16 0)
  let b := (List.range' 6 10).foldl (fun b i => b.set i (rnd.byte i)) b
  let b := b.set 6 ((b.getD 6 0 &&& 15) ||| (7 <<< 4))
  b.set 8 ((b.getD 8 0 &&& 63) ||| 128)

/-- The last ten bytes of a new identifier. -/
def randomBytes (rnd : Uuid) : List ℕ :=
  [(rnd.byte 6 &&& 15) ||| (7 <<< 4), rnd.byte 7, (rnd.byte 8 &&& 63) ||| 128, rnd.byte 9,
    rnd.byte 10, rnd.byte 11, rnd.byte 12, rnd.byte 13, rnd.byte 14, rnd.byte 15]

theorem portableBytes_eq (tsMs : ℤ) (rnd : Uuid) :
  portableBytes tsMs rnd = timestampBytes tsMs ++ randomBytes rnd
  := by
  simp only [portableBytes, setTimestamp_eq]
  simp [randomBytes, List.range', List.set_append, List.getD_eq_getElem?_getD]
  exact ⟨rfl, rfl⟩

/-- The version and the variant fit into their bytes. -/
theorem version_bits (b : ℕ) :
  112 ≤ (b &&& 15) ||| (7 <<< 4) ∧ ((b &&& 15) ||| (7 <<< 4)) < 128
    ∧ 128 ≤ (b &&& 63) ||| 128 ∧ ((b &&& 63) ||| 128) < 256
  := by
  have hversion : b &&& 15 < 2 ^ 7 := (Nat.and_le_right).trans_lt (by decide)
  have hvariant : b &&& 63 < 2 ^ 8 := (Nat.and_le_right).trans_lt (by decide)
  exact ⟨Nat.right_le_or, Nat.or_lt_two_pow hversion (by decide), Nat.right_le_or,
    Nat.or_lt_two_pow hvariant (by decide)⟩

theorem randomBytes_lt (rnd : Uuid) :
  ∀ b ∈ randomBytes rnd, b < 256
  := by
  obtain ⟨-, hversion, -, -⟩ := version_bits (rnd.byte 6)
  obtain ⟨-, -, -, hvariant⟩ := version_bits (rnd.byte 8)
  have hbyte := rnd.byte_lt
  simp only [randomBytes, List.forall_mem_cons, List.not_mem_nil, false_imp_iff, implies_true,
    and_true]
  exact ⟨by omega, hbyte 7, hvariant, hbyte 9, hbyte 10, hbyte 11, hbyte 12, hbyte 13, hbyte 14,
    hbyte 15⟩

theorem append_lt {ds es : List ℕ} (hds : ∀ d ∈ ds, d < 256) (hes : ∀ e ∈ es, e < 256) :
  ∀ b ∈ ds ++ es, b < 256
  := by
  intro b hb
  rcases List.mem_append.mp hb with hb | hb
  · exact hds b hb
  · exact hes b hb

/-- The identifier of the bytes that are put together. -/
def Uuid.portable (tsMs : ℤ) (rnd : Uuid) : Uuid where
  bytes := portableBytes tsMs rnd
  length_bytes := by
    rw [portableBytes_eq]
    rfl
  small := by
    rw [portableBytes_eq]
    exact append_lt (timestampBytes_lt _) (randomBytes_lt rnd)

/-- `absurd.portable_uuidv7`; `rnd` is what `gen_random_uuid()` returned, `clock` the server's clock
and `now` is `absurd.current_time()`. -/
def portableUuidv7 (server : Server) (clock now : ℤ) (rnd : Uuid) : Uuid :=
  match server.uuidv7 with
  | some draw => draw clock rnd
  | none => .portable (epochMs now) rnd

/-! ### Reading -/

/-- The milliseconds `absurd.uuidv7_timestamp` decodes. -/
def decodeMs (id : Uuid) : ℕ :=
  (id.byte 0 <<< 40) ||| (id.byte 1 <<< 32) ||| (id.byte 2 <<< 24) ||| (id.byte 3 <<< 16)
    ||| (id.byte 4 <<< 8) ||| id.byte 5

/-- `absurd.uuidv7_timestamp`. -/
def uuidv7Timestamp (id : Uuid) : Option ℤ :=
  if id.byte 6 >>> 4 = 7 then some ((decodeMs id : ℤ) * 1000) else none

/-- The bytes of a floor: the timestamp, and zeros but for the version and the variant. -/
def floorBytes (tsMs : ℤ) : List ℕ :=
  ((setTimestamp tsMs (List.replicate 16 0)).set 6 (7 <<< 4)).set 8 128

theorem floorBytes_eq (tsMs : ℤ) :
  floorBytes tsMs = timestampBytes tsMs ++ zeroBytes
  := by
  rw [floorBytes, setTimestamp_eq]
  simp [zeroBytes, List.set_append]

/-- `absurd.uuidv7_floor`, `none` outside the range it supports. -/
def uuidv7Floor (ts : ℤ) : Option Uuid :=
  if epochMs ts < 0 ∨ maxEpochMs < epochMs ts then none
  else
    some {
      bytes := floorBytes (epochMs ts)
      length_bytes := by
        rw [floorBytes_eq]
        rfl
      small := by
        rw [floorBytes_eq]
        exact append_lt (timestampBytes_lt _) (by decide) }

/-! ### Identifiers and moments -/

theorem epochMs_toNat_lt {ts : ℤ} (hpast : 0 ≤ epochMs ts) (hfuture : epochMs ts ≤ maxEpochMs) :
  (epochMs ts).toNat < 256 ^ 6
  := by
  rw [maxEpochMs] at hfuture
  omega

/-- Bytes that lead with the timestamp and the version are of an identifier drawn then. -/
theorem drawnAt_of_bytes {id : Uuid} {ts : ℤ} {b : ℕ} {rest : List ℕ}
    (hbytes : id.bytes = timestampBytes (epochMs ts) ++ b :: rest)
    (hversion : 112 ≤ b ∧ b < 128) (hrest : List.Forall₂ (· ≤ ·) zeroBytes (b :: rest))
    (hpast : 0 ≤ epochMs ts) (hfuture : epochMs ts ≤ maxEpochMs) :
  id.DrawnAt (epochMs ts).toNat
  := by
  constructor
  · rw [timestampBytes_eq hpast] at hbytes
    exact ⟨b :: rest, hbytes, hrest⟩
  · have hbyte : id.byte 6 = b := by
      rw [Uuid.byte, hbytes, List.getD_append_right _ _ _ _ (by simp)]
      simp
    rw [hbyte, Nat.shiftRight_eq_div_pow]
    omega
  · exact epochMs_toNat_lt hpast hfuture

/-- The bytes that are put together are of an identifier that is drawn at their timestamp. -/
theorem portable_drawnAt {now : ℤ} (rnd : Uuid) (hpast : 0 ≤ epochMs now)
    (hfuture : epochMs now ≤ maxEpochMs) :
  (Uuid.portable (epochMs now) rnd).DrawnAt (epochMs now).toNat
  := by
  obtain ⟨hversion, hversion', -, -⟩ := version_bits (rnd.byte 6)
  obtain ⟨-, -, hvariant, -⟩ := version_bits (rnd.byte 8)
  have hbytes : (Uuid.portable (epochMs now) rnd).bytes
      = timestampBytes (epochMs now) ++ randomBytes rnd := by
    simp only [Uuid.portable, portableBytes_eq]
  rw [randomBytes] at hbytes
  apply drawnAt_of_bytes hbytes ⟨hversion, hversion'⟩ _ hpast hfuture
  simp only [zeroBytes, List.forall₂_cons, List.forall₂_nil_right_iff, Nat.zero_le, true_and,
    and_true]
  exact ⟨hversion, hvariant⟩

theorem portableUuidv7_drawnAt (server : Server) {clock now : ℤ} (rnd : Uuid)
    (hpast : 0 ≤ epochMs (server.moment clock now))
    (hfuture : epochMs (server.moment clock now) ≤ maxEpochMs) :
  (portableUuidv7 server clock now rnd).DrawnAt (epochMs (server.moment clock now)).toNat
  := by
  rw [Server.moment] at *
  rw [portableUuidv7]
  cases huuidv7 : server.uuidv7 with
  | some draw =>
      simp only [huuidv7, Option.isSome_some, if_true] at hpast hfuture ⊢
      exact server.drawn draw huuidv7 clock rnd hpast hfuture
  | none =>
      simp only [huuidv7, Option.isSome_none, Bool.false_eq_true, if_false] at hpast hfuture ⊢
      exact portable_drawnAt rnd hpast hfuture

/-- One more byte of a number that is shifted together. -/
theorem shift_or (n : ℕ) {b : ℕ} (hb : b < 256) (i : ℕ) :
  n <<< (i + 8) ||| b <<< i = (n * 256 + b) <<< i
  := by
  have hjoin : n <<< 8 + b = n <<< 8 ||| b := Nat.shiftLeft_add_eq_or_of_lt hb n
  rw [Nat.add_comm i 8, Nat.shiftLeft_add, ← Nat.shiftLeft_or_distrib, ← hjoin,
    Nat.shiftLeft_eq n 8]

/-- Decoding an identifier gives the moment it was drawn at. -/
theorem decodeMs_of_drawnAt {id : Uuid} {ms : ℕ} (h : id.DrawnAt ms) :
  decodeMs id = ms
  := by
  obtain ⟨rest, hbytes, -⟩ := h.bytes
  have hbyte : ∀ i, id.byte i = (BigEndian.digits 256 6 ms ++ rest).getD i 0 := by
    intro i
    rw [Uuid.byte, hbytes]
  have hsmall := id.byte_lt
  have hdecode : decodeMs id = ((((id.byte 0 * 256 + id.byte 1) * 256 + id.byte 2) * 256
      + id.byte 3) * 256 + id.byte 4) * 256 + id.byte 5 := by
    rw [decodeMs, shift_or _ (hsmall 1) 32, shift_or _ (hsmall 2) 24, shift_or _ (hsmall 3) 16,
      shift_or _ (hsmall 4) 8]
    exact shift_or _ (hsmall 5) 0
  have hms := h.small
  rw [hdecode, hbyte, hbyte, hbyte, hbyte, hbyte, hbyte]
  simp only [BigEndian.digits, List.cons_append, List.getD_cons_zero, List.getD_cons_succ]
  omega

/-- What an identifier was drawn at is read back, to the millisecond. -/
theorem uuidv7Timestamp_of_drawnAt {id : Uuid} {ms : ℕ} (h : id.DrawnAt ms) :
  uuidv7Timestamp id = some ((ms : ℤ) * 1000)
  := by
  rw [uuidv7Timestamp, if_pos h.version, decodeMs_of_drawnAt h]

theorem floor_bytes {ts : ℤ} {lo : Uuid} (hlo : uuidv7Floor ts = some lo) :
  lo.bytes = BigEndian.digits 256 6 (epochMs ts).toNat ++ zeroBytes ∧ 0 ≤ epochMs ts
    ∧ epochMs ts ≤ maxEpochMs
  := by
  rw [uuidv7Floor] at hlo
  split at hlo
  · cases hlo
  · rename_i hrange
    rw [not_or, not_lt, not_lt] at hrange
    obtain rfl := Option.some.inj hlo
    refine ⟨?_, hrange⟩
    simp only [floorBytes_eq, timestampBytes_eq hrange.1]

/-- A floor is itself an identifier drawn at its moment. -/
theorem floor_drawnAt {ts : ℤ} {lo : Uuid} (hlo : uuidv7Floor ts = some lo) :
  lo.DrawnAt (epochMs ts).toNat
  := by
  obtain ⟨hfloor, hpast, hfuture⟩ := floor_bytes hlo
  rw [← timestampBytes_eq hpast] at hfloor
  apply drawnAt_of_bytes hfloor (by decide) _ hpast hfuture
  apply List.forall₂_refl

/-- An identifier is before the floor of a moment when it was drawn at an earlier millisecond. -/
theorem lt_floor_iff {ts : ℤ} {hi id : Uuid} {ms : ℕ} (hhi : uuidv7Floor ts = some hi)
    (h : id.DrawnAt ms) :
  id < hi ↔ (ms : ℤ) < epochMs ts
  := by
  obtain ⟨hfloor, hpast, hfuture⟩ := floor_bytes hhi
  obtain ⟨rest, hbytes, hrest⟩ := h.bytes
  have hlater : ¬ rest < zeroBytes := BigEndian.not_lt_of_forall₂ hrest
  change id.bytes < hi.bytes ↔ _
  rw [hbytes, hfloor, BigEndian.append_lt_append_iff (by simp),
    BigEndian.digits_lt_digits (by decide) h.small (epochMs_toNat_lt hpast hfuture)]
  constructor
  · rintro (hlt | ⟨-, hlt⟩)
    · omega
    · exact absurd hlt hlater
  · intro hlt
    left
    omega

/-- An identifier is not before the floor of a moment when it was drawn no earlier. -/
theorem floor_le_iff {ts : ℤ} {lo id : Uuid} {ms : ℕ} (hlo : uuidv7Floor ts = some lo)
    (h : id.DrawnAt ms) :
  lo ≤ id ↔ epochMs ts ≤ ms
  := by
  change ¬ id < lo ↔ _
  rw [lt_floor_iff hlo h, not_lt]

theorem floor_lt_floor_iff {ts ts' : ℤ} {lo hi : Uuid} (hlo : uuidv7Floor ts = some lo)
    (hhi : uuidv7Floor ts' = some hi) :
  lo < hi ↔ epochMs ts < epochMs ts'
  := by
  obtain ⟨-, hpast, -⟩ := floor_bytes hlo
  rw [lt_floor_iff hhi (floor_drawnAt hlo), Int.toNat_of_nonneg hpast]

end DjangoAbsurd.Partitions
