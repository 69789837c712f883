import RpiCc2520.TunnelPrefix

/-! The search of `getPrefix` for a new client: it visits the /64 networks of the range one after
the other from the first, and stops at the first that is free or behind the last. -/
namespace RpiCc2520.TunnelPrefix
open AddressBytes

def Cidr.size (range : Cidr) : ℕ := 2 ^ range.freeBits

/-- The counter in round `k`. -/
def nth (range : Cidr) (k : ℕ) : UInt64 := startOf range + UInt64.ofNat k

def Taken (lib : Library) (pm : PrefixManager) (range : Cidr) (k : ℕ) : Prop :=
  pm.inuse.lookup (prefixText lib (nth range k)) = some true

instance (lib : Library) (pm : PrefixManager) (range : Cidr) (k : ℕ) :
    Decidable (Taken lib pm range k) :=
  inferInstanceAs (Decidable (_ = _))

def used (lib : Library) (pm : PrefixManager) (range : Cidr) : ℕ :=
  ((Finset.range range.size).filter (Taken lib pm range)).card

/-- What the search for a new client finds, and when it ends. -/
structure SearchComplete (lib : Library) (range : Cidr) (pm : PrefixManager) (id : String) :
    Prop where
  first : putUint64 pm.prefixstart = pm.prefixcidr.ip.take 8
  networks : ∀ i, pm.prefixcidr.contains (networkAddress i) = true ↔
    ∃ k < range.size, i.toNat = pm.prefixstart.toNat + k
  leaves : pm.prefixcidr.contains (networkAddress (nth range range.size)) = false
  ends : (search lib pm (used lib pm range + 1) pm.prefixstart).isSome = true
  smallest : ∀ k < range.size, (∀ j < k, Taken lib pm range j) → ¬Taken lib pm range k →
    ∃ pm', getPrefix lib id pm = some (.ok (prefixText lib (nth range k)), pm')
  refused : (∃ error pm', getPrefix lib id pm = some (.error error, pm')) ↔
    ∀ k < range.size, Taken lib pm range k

/-- The manager still has the range it was created for. -/
structure ForRange (range : Cidr) (pm : PrefixManager) : Prop where
  cidr : pm.prefixcidr = network range.ip range.prefixlen
  start : pm.prefixstart = startOf range

theorem forRange_getPrefixes {lib : Library} {range : Cidr} {ids : List String}
    {pm pm' : PrefixManager} (h : ForRange range pm) (hc : getPrefixes lib ids pm = some pm') :
    ForRange range pm' := by
  induction ids generalizing pm with
  | nil =>
    cases hc
    exact h
  | cons id ids ih =>
    obtain ⟨⟨answer, pm₁⟩, hg, hc⟩ := Option.bind_eq_some_iff.mp hc
    have ha := answered_of_getPrefix hg
    exact ih ⟨(cidr_answered ha).trans h.cidr, (start_answered ha).trans h.start⟩ hc

variable {lib : Library} {range : Cidr} {pm : PrefixManager}

theorem Cidr.size_pos (range : Cidr) : 0 < range.size := Nat.two_pow_pos _

theorem Cidr.size_le (range : Cidr) : range.size ≤ 2 ^ 63 := by
  apply Nat.pow_le_pow_right (by omega)
  have := range.one_le
  rw [Cidr.freeBits]
  omega

theorem startOf_add_size (range : Cidr) : (startOf range).toNat + range.size ≤ 2 ^ 64 := by
  have hsplit : 2 ^ 64 = 2 ^ range.prefixlen * range.size := by
    rw [Cidr.size, Cidr.freeBits, ← pow_add, Nat.add_sub_cancel' range.le_64]
  have hlt := (uint64 range.ip).toNat_lt
  rw [hsplit] at hlt
  have hdiv := (Nat.div_lt_iff_lt_mul range.size_pos).mpr hlt
  rw [startOf_toNat, ← Cidr.size, ← Nat.succ_mul, hsplit]
  exact Nat.mul_le_mul_right _ hdiv

theorem nth_toNat {k : ℕ} (hk : k < range.size) :
    (nth range k).toNat = (startOf range).toNat + k := by
  have hend := startOf_add_size range
  have hsize := range.size_le
  have hlow : (UInt64.ofNat k).toNat = k := by
    rw [UInt64.toNat_ofNat']
    exact Nat.mod_eq_of_lt (by omega)
  rw [nth, UInt64.toNat_add, hlow]
  exact Nat.mod_eq_of_lt (by omega)

theorem nth_succ (k : ℕ) : nth range k + 1 = nth range (k + 1) := by
  rw [nth, nth, UInt64.ofNat_add, ← UInt64.add_assoc]
  rfl

/-- The /64 networks of the range are those of the rounds. -/
theorem contains_iff_nth (i : UInt64) :
    (network range.ip range.prefixlen).contains (networkAddress i) = true ↔
      ∃ k < range.size, i.toNat = (startOf range).toNat + k := by
  rw [contains_networkAddress, startOf_toNat, ← Cidr.size]
  constructor
  · intro h
    refine ⟨i.toNat % range.size, Nat.mod_lt _ range.size_pos, ?_⟩
    rw [← h, Nat.div_add_mod']
  · rintro ⟨k, hk, h⟩
    rw [h, Nat.mul_comm, Nat.mul_add_div range.size_pos, Nat.div_eq_of_lt hk, Nat.add_zero]

theorem contains_nth {k : ℕ} (hk : k < range.size) :
    (network range.ip range.prefixlen).contains (networkAddress (nth range k)) = true :=
  (contains_iff_nth _).mpr ⟨k, hk, nth_toNat hk⟩

/-- Behind its last round the counter has left the range, also where it has come round. -/
theorem contains_nth_size :
    (network range.ip range.prefixlen).contains (networkAddress (nth range range.size)) = false := by
  rw [Bool.eq_false_iff]
  intro h
  obtain ⟨k, hk, h⟩ := (contains_iff_nth _).mp h
  have hend := startOf_add_size range
  have hsize := range.size_le
  have hlow : (UInt64.ofNat range.size).toNat = range.size := by
    rw [UInt64.toNat_ofNat']
    exact Nat.mod_eq_of_lt (by omega)
  rw [nth, UInt64.toNat_add, hlow] at h
  rcases hend.lt_or_eq with hlt | heq
  · rw [Nat.mod_eq_of_lt hlt] at h
    omega
  · rw [heq, Nat.mod_self] at h
    omega

theorem search_taken (h : ForRange range pm) {n : ℕ} (hn : n ≤ range.size)
    (taken : ∀ k < n, Taken lib pm range k) (fuel : ℕ) :
    search lib pm (n + fuel) pm.prefixstart = search lib pm fuel (nth range n) := by
  induction n generalizing fuel with
  | zero =>
    rw [Nat.zero_add, h.start, nth]
    exact congrArg _ (UInt64.add_zero _).symm
  | succ n ih =>
    have hin : pm.prefixcidr.contains (networkAddress (nth range n)) = true := by
      rw [h.cidr]
      exact contains_nth hn
    rw [Nat.add_assoc, Nat.add_comm 1, ih (Nat.le_of_succ_le hn) fun k hk => taken k (by omega),
      search, if_pos hin, nth_succ]
    exact if_pos (taken n (Nat.lt_succ_self n))

theorem search_free (h : ForRange range pm) {n : ℕ} (hn : n < range.size)
    (taken : ∀ k < n, Taken lib pm range k) (free : ¬Taken lib pm range n) {fuel : ℕ}
    (hfuel : n < fuel) :
    search lib pm fuel pm.prefixstart = some (some (prefixText lib (nth range n))) := by
  obtain ⟨rest, rfl⟩ := Nat.exists_eq_add_of_lt hfuel
  have hin : pm.prefixcidr.contains (networkAddress (nth range n)) = true := by
    rw [h.cidr]
    exact contains_nth hn
  rw [Nat.add_assoc, search_taken h hn.le taken, search, if_pos hin]
  exact if_neg free

theorem search_full (h : ForRange range pm) (taken : ∀ k < range.size, Taken lib pm range k)
    {fuel : ℕ} (hfuel : range.size < fuel) :
    search lib pm fuel pm.prefixstart = some none := by
  obtain ⟨rest, rfl⟩ := Nat.exists_eq_add_of_lt hfuel
  have hout : ¬pm.prefixcidr.contains (networkAddress (nth range range.size)) = true := by
    rw [h.cidr, contains_nth_size]
    exact Bool.false_ne_true
  rw [Nat.add_assoc, search_taken h le_rfl taken, search, if_neg hout]

theorem full_or_first (lib : Library) (pm : PrefixManager) (range : Cidr) :
    (∀ k < range.size, Taken lib pm range k) ∨
      ∃ n < range.size, (∀ k < n, Taken lib pm range k) ∧ ¬Taken lib pm range n := by
  by_cases hall : ∀ k < range.size, Taken lib pm range k
  · exact .inl hall
  · push Not at hall
    obtain ⟨hn, hfree⟩ := Nat.find_spec hall
    refine .inr ⟨Nat.find hall, hn, fun k hk => ?_, hfree⟩
    by_contra hfree'
    exact Nat.find_min hall hk ⟨hk.trans hn, hfree'⟩

theorem le_used {n : ℕ} (hn : n ≤ range.size) (taken : ∀ k < n, Taken lib pm range k) :
    n ≤ used lib pm range := by
  have hsub : Finset.range n ⊆ (Finset.range range.size).filter (Taken lib pm range) := by
    intro k hk
    have hk := Finset.mem_range.mp hk
    exact Finset.mem_filter.mpr ⟨Finset.mem_range.mpr (by omega), taken k hk⟩
  simpa [used] using Finset.card_le_card hsub

/-- Different networks are in use under different texts. -/
theorem used_le_keys (text : lib.TextInjective) : used lib pm range ≤ pm.inuse.keys.card := by
  refine Finset.card_le_card_of_injOn (fun k => prefixText lib (nth range k)) ?_ ?_
  · intro k hk
    have htaken := (Finset.mem_filter.mp (Finset.mem_coe.mp hk)).2
    exact Finmap.mem_keys.mpr (Finmap.mem_of_lookup_eq_some htaken)
  · intro j hj k hk he
    have hj := Finset.mem_range.mp (Finset.mem_filter.mp (Finset.mem_coe.mp hj)).1
    have hk := Finset.mem_range.mp (Finset.mem_filter.mp (Finset.mem_coe.mp hk)).1
    have hn := congrArg UInt64.toNat (prefixText_injective text he)
    rw [nth_toNat hj, nth_toNat hk] at hn
    omega

theorem getPrefix_of_found {id p : String} (new : pm.prefixes.lookup id = none)
    (found : search lib pm (pm.inuse.keys.card + 1) pm.prefixstart = some (some p)) :
    getPrefix lib id pm = some (.ok p, writeFile lib { pm with
      prefixes := pm.prefixes.insert id p
      inuse := pm.inuse.insert p true }) := by
  unfold getPrefix
  simp only [new, found]

theorem getPrefix_of_full {id : String} (new : pm.prefixes.lookup id = none)
    (full : search lib pm (pm.inuse.keys.card + 1) pm.prefixstart = some none) :
    getPrefix lib id pm = some (.error "Out of prefixes", pm) := by
  unfold getPrefix
  simp only [new, full]

theorem putUint64_startOf (range : Cidr) :
    putUint64 (startOf range) = (network range.ip range.prefixlen).ip.take 8 := by
  have hlen : (range.ip.take 8).length = 8 := by simp [range.ip_length]
  have hkept : (maskIP (range.ip.take 8) (maskBytes 8 range.prefixlen)).length = 8 := by
    rw [maskIP_length (by rw [hlen, maskBytes_length]), hlen]
  have hmask : (network range.ip range.prefixlen).ip.take 8 =
      maskIP (range.ip.take 8) (maskBytes 8 range.prefixlen) := by
    have hcut := maskIP_maskBytes (k := 8) (m := 8) range.ip_length range.le_64
    rw [network, cidrMask]
    exact (congrArg (List.take 8) hcut).trans (List.take_left' hkept)
  have hstart : startOf range =
      uint64 (maskIP (range.ip.take 8) (maskBytes 8 range.prefixlen)) := by
    rw [← UInt64.toNat_inj, startOf_toNat, uint64_toNat hkept.ge, List.take_of_length_le hkept.le,
      ofBigEndian_maskIP hlen range.le_64, uint64_toNat (by rw [range.ip_length]; decide)]
    rfl
  rw [hstart, hmask, putUint64_uint64 hkept]

/-- The search of a new client is complete, whatever the file held and whoever asked before. -/
theorem searchComplete_of_getPrefixes (lib : Library) (text : lib.TextInjective) (range : Cidr)
    (loaded : Assignments) (prefixfile : List UInt8) (ids : List String) (pm : PrefixManager)
    (calls : getPrefixes lib ids (createFrom loaded prefixfile range) = some pm) (id : String)
    (new : pm.prefixes.lookup id = none) : SearchComplete lib range pm id := by
  have h : ForRange range pm := forRange_getPrefixes ⟨rfl, rfl⟩ calls
  have hused : used lib pm range ≤ pm.inuse.keys.card := used_le_keys text
  constructor
  · rw [h.start, h.cidr]
    exact putUint64_startOf range
  · intro i
    rw [h.cidr, h.start]
    exact contains_iff_nth i
  · rw [h.cidr]
    exact contains_nth_size
  · rcases full_or_first lib pm range with full | ⟨n, hn, taken, free⟩
    · rw [search_full h full (Nat.lt_succ_of_le (le_used le_rfl full))]
      rfl
    · rw [search_free h hn taken free (Nat.lt_succ_of_le (le_used hn.le taken))]
      rfl
  · intro n hn taken free
    have hle := le_used hn.le taken
    exact ⟨_, getPrefix_of_found new (search_free h hn taken free (by omega))⟩
  · rcases full_or_first lib pm range with full | ⟨n, hn, taken, free⟩
    · have hle := le_used le_rfl full
      exact iff_of_true ⟨_, _, getPrefix_of_full new (search_full h full (by omega))⟩ full
    · have hle := le_used hn.le taken
      refine iff_of_false ?_ fun full => free (full n hn)
      rintro ⟨error, pm', he⟩
      rw [getPrefix_of_found new (search_free h hn taken free (by omega))] at he
      cases he

/-- One /64 of the range is in use and one outside it is; a new client gets the other. -/
theorem searchComplete_of_getPrefixes_second :
    ∃ pm, pm.inuse.keys.card = 2 ∧ used sampleLibrary pm sampleRange = 1 ∧
      SearchComplete sampleLibrary sampleRange pm "b" := by
  let loaded : Assignments := Finmap.singleton "c" "2001:db9::/64"
  have hrun : (getPrefixes sampleLibrary ["a"] (createFrom loaded [] sampleRange)).map
      (fun pm => (pm.prefixes.lookup "b", pm.inuse.keys.card,
        used sampleLibrary pm sampleRange)) = some (none, 2, 1) := by decide +kernel
  obtain ⟨pm, calls, hs⟩ := Option.map_eq_some_iff.mp hrun
  simp only [Prod.mk.injEq] at hs
  obtain ⟨new, hkeys, hused⟩ := hs
  exact ⟨pm, hkeys, hused, searchComplete_of_getPrefixes sampleLibrary sampleLibrary_textInjective
    sampleRange loaded [] ["a"] pm calls "b" new⟩

end RpiCc2520.TunnelPrefix
