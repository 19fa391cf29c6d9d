import Mathlib.Data.BitVec

namespace RayCompiler

abbrev Word := BitVec 64

-- One byte at each address. Addresses wrap around.
abbrev Memory := Word → BitVec 8

namespace Memory

def byte (memory : Memory) (address : Word) (index : Nat) : BitVec 8 :=
  memory (address + .ofNat 64 index)

-- The eight bytes from an address on, the least significant one first.
def read (memory : Memory) (address : Word) : Word :=
  memory.byte address 7 ++ memory.byte address 6 ++ memory.byte address 5 ++ memory.byte address 4 ++
    memory.byte address 3 ++ memory.byte address 2 ++ memory.byte address 1 ++ memory.byte address 0

def write (memory : Memory) (address value : Word) : Memory := fun place =>
  if (place - address).toNat < 8 then value.extractLsb' (8 * (place - address).toNat) 8
  else memory place

theorem read_congr {memory other : Memory} {address : Word}
    (h : ∀ i < 8, memory.byte address i = other.byte address i) :
    memory.read address = other.read address := by
  unfold read
  rw [h 0 (by omega), h 1 (by omega), h 2 (by omega), h 3 (by omega), h 4 (by omega),
    h 5 (by omega), h 6 (by omega), h 7 (by omega)]

theorem byte_write_same (memory : Memory) (address value : Word) {i : Nat} (hi : i < 8) :
    (memory.write address value).byte address i = value.extractLsb' (8 * i) 8 := by
  have hoffset : (address + .ofNat 64 i - address).toNat = i := by
    rw [BitVec.add_comm, BitVec.add_sub_cancel, BitVec.toNat_ofNat]
    omega
  rw [byte, write, hoffset, if_pos hi]

theorem read_write_same (memory : Memory) (address value : Word) :
    (memory.write address value).read address = value := by
  have hbyte := fun i hi => @byte_write_same memory address value i hi
  unfold read
  rw [hbyte 0 (by omega), hbyte 1 (by omega), hbyte 2 (by omega), hbyte 3 (by omega),
    hbyte 4 (by omega), hbyte 5 (by omega), hbyte 6 (by omega), hbyte 7 (by omega)]
  simp only [BitVec.extractLsb'_append_extractLsb'_eq_extractLsb']
  simp

end Memory

-- An address by its distance from another one.
def spot (base : Word) (offset : Int) : Word := base + .ofInt 64 offset

-- How far an address lies above another one, or below it if the distance is negative.
def offset (base address : Word) : Int := (address - base).toInt

@[simp] theorem spot_zero (base : Word) : spot base 0 = base := by
  simp [spot]

theorem spot_spot (base : Word) (first second : Int) :
    spot (spot base first) second = spot base (first + second) := by
  simp only [spot, BitVec.ofInt_add, BitVec.add_assoc]

theorem spot_add_ofNat (base : Word) (offset : Int) (bytes : Nat) :
    spot base offset + .ofNat 64 bytes = spot base (offset + bytes) := by
  rw [← spot_spot]
  simp [spot]

theorem spot_sub_ofNat (base : Word) (offset : Int) (bytes : Nat) :
    spot base offset - .ofNat 64 bytes = spot base (offset - bytes) := by
  rw [eq_comm, BitVec.eq_sub_iff_add_eq, spot_add_ofNat]
  congr 1
  omega

theorem add_ofNat_eq_spot (base : Word) (bytes : Nat) :
    base + .ofNat 64 bytes = spot base (bytes : Nat) := by
  have h := spot_add_ofNat base 0 bytes
  rwa [spot_zero, Int.zero_add] at h

theorem sub_ofNat_eq_spot (base : Word) (bytes : Nat) :
    base - .ofNat 64 bytes = spot base (-(bytes : Nat)) := by
  have h := spot_sub_ofNat base 0 bytes
  rwa [spot_zero, Int.zero_sub] at h

-- None of the eight bytes at an address lies in a range of distances from a base.
def Clear (base : Word) (low high : Int) (address : Word) : Prop :=
  ∀ i < 8, offset base (address + .ofNat 64 i) < low ∨ high ≤ offset base (address + .ofNat 64 i)

instance (base : Word) (low high : Int) (address : Word) : Decidable (Clear base low high address) :=
  inferInstanceAs (Decidable (∀ i < 8, _ ∨ _))

theorem spot_offset (base address : Word) : spot base (offset base address) = address := by
  simp only [spot, offset, BitVec.ofInt_toInt]
  rw [BitVec.add_comm, BitVec.sub_add_cancel]

theorem offset_spot {base : Word} {distance : Int} (hlow : -2 ^ 63 ≤ distance)
    (hhigh : distance < 2 ^ 63) : offset base (spot base distance) = distance := by
  rw [offset, spot, BitVec.add_comm, BitVec.add_sub_cancel, BitVec.toInt_ofInt]
  apply Int.bmod_eq_of_le <;> omega

theorem sub_spot (base address : Word) (distance : Int) :
    address - spot base distance = .ofInt 64 (offset base address - distance) := by
  rw [BitVec.sub_eq_iff_eq_add]
  nth_rewrite 1 [← spot_offset base address]
  rw [BitVec.add_comm, ← spot, spot_spot]
  congr 1
  omega

theorem offset_bounds (base address : Word) :
    -2 ^ 63 ≤ offset base address ∧ offset base address < 2 ^ 63 :=
  ⟨BitVec.le_toInt _, BitVec.toInt_lt⟩

namespace Memory

variable {base : Word} {low high : Int} {memory middle other : Memory}

-- Two memories that differ at most in a range of distances from a base.
def SameOutside (base : Word) (low high : Int) (memory other : Memory) : Prop :=
  ∀ address, offset base address < low ∨ high ≤ offset base address →
    memory address = other address

theorem SameOutside.refl (base : Word) (low high : Int) (memory : Memory) :
    SameOutside base low high memory memory :=
  fun _ _ => rfl

theorem SameOutside.trans (h : SameOutside base low high memory middle)
    (h' : SameOutside base low high middle other) : SameOutside base low high memory other :=
  fun address hout => (h address hout).trans (h' address hout)

theorem SameOutside.mono (h : SameOutside base low high memory other) {low' high' : Int}
    (hlow : low' ≤ low) (hhigh : high ≤ high') : SameOutside base low' high' memory other := by
  intro address hout
  apply h address
  omega

-- The same range seen from another base.
theorem SameOutside.rebase {shift : Int} (h : SameOutside (spot base shift) low high memory other)
    (hshift : -2 ^ 62 ≤ shift ∧ shift ≤ 2 ^ 62) (hlow : -2 ^ 62 ≤ low) (hhigh : high ≤ 2 ^ 62) :
    SameOutside base (low + shift) (high + shift) memory other := by
  intro address hout
  apply h address
  have hbounds := offset_bounds base address
  rw [offset, sub_spot, BitVec.toInt_ofInt, Int.bmod_def]
  split <;> omega

-- Eight bytes are the same in both memories if none of them lies in the range.
theorem SameOutside.read_eq (h : SameOutside base low high memory other) {distance : Int}
    (hout : distance + 8 ≤ low ∨ high ≤ distance) (hlow : -2 ^ 62 ≤ distance)
    (hhigh : distance ≤ 2 ^ 62) :
    memory.read (spot base distance) = other.read (spot base distance) := by
  apply read_congr
  intro i hi
  unfold byte
  rw [spot_add_ofNat]
  apply h
  rw [offset_spot (by omega) (by omega)]
  omega

theorem sameOutside_write (memory : Memory) (value : Word) {distance : Int}
    (hlow : -2 ^ 62 ≤ distance) (hhigh : distance ≤ 2 ^ 62) :
    SameOutside base distance (distance + 8) (memory.write (spot base distance) value) memory := by
  intro address hout
  have hbounds := offset_bounds base address
  rw [write, sub_spot, BitVec.toNat_ofInt, if_neg]
  omega

end Memory

end RayCompiler
