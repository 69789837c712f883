import RpiCc2520.EventMachine

/-! JSON objects of strings: their text, keys in order, and a scanner that takes a text byte by
byte. A quotation mark and a backslash in a string are escaped with a backslash. -/
namespace RpiCc2520.JsonText

abbrev Object := Finmap fun _ : String => String

def utf8 (s : String) : List UInt8 := s.toByteArray.data.toList

def ofUtf8 (bs : List UInt8) : Option String := String.fromUTF8? ⟨bs.toArray⟩

def isSpace (b : UInt8) : Bool := b == 0x20 || b == 0x09 || b == 0x0A || b == 0x0D

def quotationMark : UInt8 := 0x22
def backslash : UInt8 := 0x5C
def comma : UInt8 := 0x2C
def colon : UInt8 := 0x3A
def leftBrace : UInt8 := 0x7B
def rightBrace : UInt8 := 0x7D

def escape : List UInt8 → List UInt8
  | [] => []
  | b :: bs =>
      if b = quotationMark ∨ b = backslash then backslash :: b :: escape bs else b :: escape bs

def quote (s : String) : List UInt8 := quotationMark :: (escape (utf8 s) ++ [quotationMark])

def member (e : String × String) : List UInt8 := quote e.1 ++ colon :: quote e.2

def further (es : List (String × String)) : List UInt8 := es.flatMap fun e => comma :: member e

def members : List (String × String) → List UInt8
  | [] => []
  | e :: es => member e ++ further es

def entries (m : Object) : List (String × String) :=
  (m.keys.sort (· ≤ ·)).map fun k => (k, (m.lookup k).getD "")

def marshal (m : Object) : List UInt8 := leftBrace :: (members (entries m) ++ [rightBrace])

/-- How far a scan is, with the members read so far. Inside a string, `key` is the member's key
when the string is its value. -/
inductive Scan
  | start
  | first
  | next (m : Object)
  | inside (m : Object) (key : Option String) (s : List UInt8) (escaped : Bool)
  | colon (m : Object) (key : String)
  | value (m : Object) (key : String)
  | after (m : Object)
  | done (m : Object)

def closeString (m : Object) : Option String → String → Scan
  | none, s => .colon m s
  | some key, s => .after (m.insert key s)

/-- A byte outside strings that is not white space. -/
def token : Scan → UInt8 → Option Scan
  | .start, b => if b = leftBrace then some .first else none
  | .first, b =>
      if b = quotationMark then some (.inside ∅ none [] false)
      else if b = rightBrace then some (.done ∅) else none
  | .next m, b => if b = quotationMark then some (.inside m none [] false) else none
  | .colon m key, b => if b = JsonText.colon then some (.value m key) else none
  | .value m key, b => if b = quotationMark then some (.inside m (some key) [] false) else none
  | .after m, b =>
      if b = comma then some (.next m) else if b = rightBrace then some (.done m) else none
  | .inside .., _ | .done _, _ => none

def scanStep : Scan → UInt8 → Option Scan
  | .inside m key s true, b =>
      if b = quotationMark ∨ b = backslash then some (.inside m key (s ++ [b]) false) else none
  | .inside m key s false, b =>
      if b = quotationMark then (ofUtf8 s).map (closeString m key)
      else if b = backslash then some (.inside m key s true)
      else some (.inside m key (s ++ [b]) false)
  | c, b => if isSpace b then some c else token c b

def scanner : Machine Scan UInt8 := ⟨(· = .start), scanStep⟩

def unmarshal (text : List UInt8) : Option Object :=
  match scanner.run .start text with
  | some (.done m) => some m
  | _ => none

theorem utf8_append (s t : String) : utf8 (s ++ t) = utf8 s ++ utf8 t := by
  simp [utf8, String.toByteArray_append]

theorem ofUtf8_utf8 (s : String) : ofUtf8 (utf8 s) = some s := by
  have hbytes : (⟨s.toByteArray.data.toList.toArray⟩ : ByteArray) = s.toByteArray := rfl
  rw [ofUtf8, utf8, hbytes, String.fromUTF8?, dif_pos s.isValidUTF8]
  rfl

variable {m : Object}

theorem scan_cons {c d : Scan} {b : UInt8} (h : scanStep c b = some d) (rest : List UInt8) :
    scanner.run c (b :: rest) = scanner.run d rest :=
  congrArg (Option.bind · fun c => scanner.run c rest) h

theorem scan_escape (key : Option String) (s bs rest : List UInt8) :
    scanner.run (.inside m key s false) (escape bs ++ rest) =
      scanner.run (.inside m key (s ++ bs) false) rest := by
  induction bs generalizing s with
  | nil => rw [escape, List.nil_append, List.append_nil]
  | cons b bs ih =>
    have happ : s ++ b :: bs = s ++ [b] ++ bs := by simp
    rw [escape, happ, ← ih]
    by_cases hb : b = quotationMark ∨ b = backslash
    · have hback : scanStep (.inside m key s false) backslash = some (.inside m key s true) := rfl
      have hlit : scanStep (.inside m key s true) b = some (.inside m key (s ++ [b]) false) := by
        rw [scanStep, if_pos hb]
      rw [if_pos hb, List.cons_append, List.cons_append, scan_cons hback, scan_cons hlit]
    · have hlit : scanStep (.inside m key s false) b = some (.inside m key (s ++ [b]) false) := by
        rw [scanStep, if_neg (not_or.mp hb).1, if_neg (not_or.mp hb).2]
      rw [if_neg hb, List.cons_append, scan_cons hlit]

theorem scan_string (key : Option String) (s : String) (rest : List UInt8) :
    scanner.run (.inside m key [] false) (escape (utf8 s) ++ [quotationMark] ++ rest) =
      scanner.run (closeString m key s) rest := by
  rw [List.append_assoc, scan_escape, List.nil_append]
  have hclose : scanStep (.inside m key (utf8 s) false) quotationMark =
      some (closeString m key s) := by
    rw [scanStep, if_pos rfl, ofUtf8_utf8]
    rfl
  exact scan_cons hclose rest

theorem scan_member (e : String × String) (rest : List UInt8) :
    scanner.run (.next m) (member e ++ rest) = scanner.run (.after (m.insert e.1 e.2)) rest := by
  have htext : member e ++ rest = quotationMark :: (escape (utf8 e.1) ++ [quotationMark] ++
      (colon :: quotationMark :: (escape (utf8 e.2) ++ [quotationMark] ++ rest))) := by
    simp [member, quote]
  calc scanner.run (.next m) (member e ++ rest)
      = scanner.run (.inside m none [] false) (escape (utf8 e.1) ++ [quotationMark] ++
          (colon :: quotationMark :: (escape (utf8 e.2) ++ [quotationMark] ++ rest))) := by
        rw [htext]; rfl
    _ = scanner.run (.inside m (some e.1) [] false)
          (escape (utf8 e.2) ++ [quotationMark] ++ rest) := by rw [scan_string]; rfl
    _ = scanner.run (.after (m.insert e.1 e.2)) rest := by rw [scan_string]; rfl

/-- The members put in one after the other; of two with one key the later one stays. -/
def insertAll (es : List (String × String)) (m : Object) : Object :=
  es.foldl (fun m e => m.insert e.1 e.2) m

theorem scan_further (es : List (String × String)) (rest : List UInt8) :
    scanner.run (.after m) (further es ++ rest) = scanner.run (.after (insertAll es m)) rest := by
  induction es generalizing m with
  | nil => rfl
  | cons e es ih =>
    have htext : further (e :: es) ++ rest = comma :: (member e ++ (further es ++ rest)) := by
      simp [further]
    calc scanner.run (.after m) (further (e :: es) ++ rest)
        = scanner.run (.next m) (member e ++ (further es ++ rest)) := by rw [htext]; rfl
      _ = scanner.run (.after (insertAll es (m.insert e.1 e.2))) rest := by rw [scan_member, ih]

theorem lookup_insertAll (f : String → String) (ks : List String) (k : String) :
    (insertAll (ks.map fun k => (k, f k)) m).lookup k =
      if k ∈ ks then some (f k) else m.lookup k := by
  induction ks generalizing m with
  | nil => rfl
  | cons k' ks ih =>
    rw [List.map_cons, insertAll, List.foldl_cons]
    refine ih.trans ?_
    by_cases hks : k ∈ ks
    · rw [if_pos hks, if_pos (List.mem_cons_of_mem k' hks)]
    · by_cases hk : k = k'
      · rw [if_neg hks, if_pos (List.mem_cons.mpr (.inl hk)), hk, Finmap.lookup_insert]
      · rw [if_neg hks, if_neg (by simp [hk, hks]), Finmap.lookup_insert_of_ne _ hk]

theorem insertAll_entries (m : Object) : insertAll (entries m) ∅ = m := by
  refine Finmap.ext_lookup fun k => ?_
  rw [entries, lookup_insertAll fun k => (m.lookup k).getD ""]
  by_cases hk : k ∈ m
  · obtain ⟨v, hv⟩ := Finmap.mem_iff.mp hk
    rw [if_pos ((Finset.mem_sort _).mpr (Finmap.mem_keys.mpr hk)), hv]
    rfl
  · rw [if_neg (by simpa [Finmap.mem_keys] using hk), Finmap.lookup_eq_none.mpr hk]
    rfl

theorem scan_marshal (m : Object) : scanner.run .start (marshal m) = some (.done m) := by
  have hopen : scanner.run .start (marshal m) =
      scanner.run .first (members (entries m) ++ [rightBrace]) := rfl
  have hall := insertAll_entries m
  rw [hopen]
  cases hes : entries m with
  | nil =>
    rw [hes] at hall
    rw [← hall]
    rfl
  | cons e es =>
    rw [hes] at hall
    -- the first key is read the same way as any other
    calc scanner.run .first (members (e :: es) ++ [rightBrace])
        = scanner.run (.next ∅) (member e ++ (further es ++ [rightBrace])) := by
          rw [members, List.append_assoc]; rfl
      _ = scanner.run (.after (insertAll es (Finmap.insert e.1 e.2 ∅))) [rightBrace] := by
          rw [scan_member, scan_further]
      _ = some (.done m) := by rw [← hall]; rfl

theorem scan_spaces {spaces : List UInt8} (h : ∀ b ∈ spaces, isSpace b) :
    scanner.run (.done m) spaces = some (.done m) := by
  induction spaces with
  | nil => rfl
  | cons b spaces ih =>
    have hb : scanStep (.done m) b = some (.done m) := if_pos (h b List.mem_cons_self)
    rw [scan_cons hb]
    exact ih fun b hb => h b (List.mem_cons_of_mem _ hb)

/-- Behind the object a scan goes on over white space only. -/
theorem spaces_of_scan_done {rest : List UInt8} {c : Scan}
    (h : scanner.run (.done m) rest = some c) : ∀ b ∈ rest, isSpace b := by
  induction rest with
  | nil => simp
  | cons b rest ih =>
    obtain ⟨d, hd, h⟩ := Option.bind_eq_some_iff.mp h
    by_cases hb : isSpace b = true
    · have hstay : scanStep (.done m) b = some (.done m) := if_pos hb
      cases hstay.symm.trans hd
      exact List.forall_mem_cons.mpr ⟨hb, ih h⟩
    · have hstop : scanStep (.done m) b = none := if_neg hb
      cases hstop.symm.trans hd

theorem unmarshal_eq_some {text : List UInt8} :
    unmarshal text = some m ↔ scanner.run .start text = some (.done m) := by
  unfold unmarshal
  split <;> simp_all

theorem unmarshal_marshal (m : Object) {spaces : List UInt8} (h : ∀ b ∈ spaces, isSpace b) :
    unmarshal (marshal m ++ spaces) = some m := by
  rw [unmarshal_eq_some, Machine.run_append, scan_marshal]
  exact scan_spaces h

theorem unmarshal_trailing (m : Object) {rest : List UInt8} (h : ∃ b ∈ rest, ¬ isSpace b) :
    unmarshal (marshal m ++ rest) = none := by
  rw [Option.eq_none_iff_forall_ne_some]
  intro m' hm'
  rw [unmarshal_eq_some, Machine.run_append, scan_marshal] at hm'
  obtain ⟨b, hb, hspace⟩ := h
  exact hspace (spaces_of_scan_done hm' b hb)

theorem marshal_getLast (m : Object) : (marshal m).getLast? = some rightBrace := by
  rw [marshal, ← List.cons_append]
  exact List.getLast?_concat

theorem unmarshal_truncated (m : Object) {n : ℕ} (h : n < (marshal m).length) :
    unmarshal ((marshal m).take n) = none := by
  rw [Option.eq_none_iff_forall_ne_some]
  intro m' hm'
  rw [unmarshal_eq_some] at hm'
  -- the bytes that are cut off would be scanned behind the object
  have hrest := scan_marshal m
  rw [← List.take_append_drop n (marshal m), Machine.run_append, hm'] at hrest
  have hne : (marshal m).drop n ≠ [] := by simpa using h
  have hlast : ((marshal m).drop n).getLast? = some rightBrace := by
    rw [List.getLast?_drop, if_neg (by omega), marshal_getLast]
  have hspace := spaces_of_scan_done hrest rightBrace (List.mem_of_getLast? hlast)
  cases hspace

theorem length_marshal (m : Object) : (marshal m).length =
    2 + ((∑ k ∈ m.keys, ((member (k, (m.lookup k).getD "")).length + 1)) - 1) := by
  have hsum : (∑ k ∈ m.keys, ((member (k, (m.lookup k).getD "")).length + 1)) =
      ((entries m).map fun e => (member e).length + 1).sum := by
    rw [entries, List.map_map, Finset.sum_eq_multiset_sum, ← Finset.sort_eq m.keys (· ≤ ·)]
    rfl
  rw [hsum, marshal]
  cases entries m with
  | nil => rfl
  | cons e es =>
    simp only [members, further, List.length_cons, List.length_append, List.length_flatMap,
      List.map_cons, List.sum_cons, List.length_nil]
    omega

theorem marshal_grows {k v : String} (h : m.lookup k = none) :
    (marshal m).length ≤ (marshal (m.insert k v)).length := by
  rw [length_marshal, length_marshal]
  have hkeys : m.keys ⊆ (m.insert k v).keys := fun k' hk' => by
    rw [Finmap.mem_keys, Finmap.mem_insert]
    exact .inr (Finmap.mem_keys.mp hk')
  have hsame : ∀ k' ∈ m.keys, (m.insert k v).lookup k' = m.lookup k' := fun k' hk' => by
    refine Finmap.lookup_insert_of_ne m ?_
    rintro rfl
    exact absurd (Finmap.mem_keys.mp hk') (Finmap.lookup_eq_none.mp h)
  have hsum : (∑ k' ∈ m.keys, ((member (k', (m.lookup k').getD "")).length + 1)) ≤
      ∑ k' ∈ (m.insert k v).keys,
        ((member (k', ((m.insert k v).lookup k').getD "")).length + 1) := by
    rw [Finset.sum_congr rfl fun k' hk' => by rw [← hsame k' hk']]
    exact Finset.sum_le_sum_of_subset hkeys
  omega

theorem leftBrace_of_scan {text : List UInt8} {c : Scan} (h : scanner.run .start text = some c)
    (hc : c ≠ .start) : leftBrace ∈ text := by
  induction text with
  | nil => exact absurd (Option.some.inj h).symm hc
  | cons b text ih =>
    by_cases hb : b = leftBrace
    · exact hb ▸ List.mem_cons_self
    · obtain ⟨d, hd, h⟩ := Option.bind_eq_some_iff.mp h
      have hstay : d = .start := by
        simp only [scanner, scanStep, token, if_neg hb] at hd
        split at hd
        · exact (Option.some.inj hd).symm
        · cases hd
      rw [hstay] at h
      exact List.mem_cons_of_mem b (ih h)

theorem scanStep_ne_done {c d : Scan} {b : UInt8} (hb : b ≠ rightBrace)
    (hc : ∀ m, c ≠ .done m) (h : scanStep c b = some d) : ∀ m, d ≠ .done m := by
  rintro m rfl
  cases c with
  | done m' => exact hc m' rfl
  | inside m' key s escaped =>
    cases escaped with
    | true => simp [scanStep] at h
    | false =>
      simp only [scanStep] at h
      split at h
      · obtain ⟨v, -, hv⟩ := Option.map_eq_some_iff.mp h
        cases key <;> cases hv
      · split at h <;> cases h
  | _ =>
    simp only [scanStep, token, if_neg hb] at h
    split at h
    · cases h
    · simp at h

theorem rightBrace_of_scan {text : List UInt8} {c : Scan} {m : Object}
    (h : scanner.run c text = some (.done m)) (hc : ∀ m, c ≠ .done m) : rightBrace ∈ text := by
  induction text generalizing c with
  | nil => exact absurd (Option.some.inj h) (hc m)
  | cons b text ih =>
    by_cases hb : b = rightBrace
    · exact hb ▸ List.mem_cons_self
    · obtain ⟨d, hd, h⟩ := Option.bind_eq_some_iff.mp h
      exact List.mem_cons_of_mem b (ih h (scanStep_ne_done hb hc hd))

end RpiCc2520.JsonText
