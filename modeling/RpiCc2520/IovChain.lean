import RpiCc2520.BytePipe

/-! Scattered data: chains of pieces that lie anywhere in a flat memory. -/
namespace RpiCc2520.IovChain
open BytePipe

abbrev Memory := ℕ → UInt8

structure Iov where
  iovBase : ℕ
  iovLen : UInt32
  deriving DecidableEq

def Iov.addresses (v : Iov) : List ℕ := (List.range v.iovLen.toNat).map (v.iovBase + ·)

def addresses (chain : List Iov) : List ℕ := chain.flatMap Iov.addresses

def flatten (mem : Memory) (chain : List Iov) : List UInt8 := (addresses chain).map mem

@[simp] theorem length_addresses_iov (v : Iov) : v.addresses.length = v.iovLen.toNat := by
  simp [Iov.addresses]

@[simp] theorem addresses_cons (v : Iov) (chain : List Iov) :
    addresses (v :: chain) = v.addresses ++ addresses chain := rfl

@[simp] theorem length_flatten (mem : Memory) (chain : List Iov) :
    (flatten mem chain).length = (addresses chain).length := List.length_map ..

theorem addresses_eq_range' (v : Iov) :
    v.addresses = List.range' v.iovBase v.iovLen.toNat := by
  rw [Iov.addresses, List.range_eq_range', List.map_add_range', Nat.add_zero]

theorem addresses_drop {v : Iov} {n : UInt32} (h : n ≤ v.iovLen) (chain : List Iov) :
    addresses (⟨v.iovBase + n.toNat, v.iovLen - n⟩ :: chain) =
      (addresses (v :: chain)).drop n.toNat := by
  have hle := UInt32.le_iff_toNat_le.mp h
  have hsub := UInt32.toNat_sub_of_le _ _ h
  have hdrop : Iov.addresses ⟨v.iovBase + n.toNat, v.iovLen - n⟩ = v.addresses.drop n.toNat := by
    rw [addresses_eq_range', addresses_eq_range', List.drop_range', Nat.mul_one, hsub]
  rw [addresses_cons, addresses_cons, hdrop,
    List.drop_append_of_le_length ((length_addresses_iov v).symm ▸ hle)]

theorem exists_flatten (bs : List UInt8) (h : bs.length < 2 ^ 32) :
    ∃ mem v, flatten mem [v] = bs := by
  refine ⟨store (fun _ => 0) 0 bs, ⟨0, .ofNat bs.length⟩, ?_⟩
  have hlen : (UInt32.ofNat bs.length).toNat = bs.length := UInt32.toNat_ofNat_of_lt' h
  rw [flatten, addresses_cons, Iov.addresses, hlen]
  calc
    _ = load (store (fun _ => 0) 0 bs) 0 bs.length := by simp [load, addresses]
    _ = bs := load_store _ 0 bs

end RpiCc2520.IovChain
