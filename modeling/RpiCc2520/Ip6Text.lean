import RpiCc2520.DecimalText
import RpiCc2520.HexText

/-! Text of IPv6 addresses: eight groups in lower-case hexadecimal with the first longest run of
zero groups written as two colons, and a parser for it. -/
namespace RpiCc2520.Ip6Text
open DecimalText (foldl_reverse_digits)
open HexText

def colon : UInt8 := 0x3A

def digit (d : ℕ) : UInt8 := if d < 10 then .ofNat (48 + d) else .ofNat (87 + d)

def hex (group : ℕ) : List UInt8 :=
  if group = 0 then [digit 0] else ((Nat.digits 16 group).map digit).reverse

def join (groups : List ℕ) : List UInt8 := [colon].intercalate (groups.map hex)

structure Run where
  start : ℕ
  length : ℕ

/-- The first longest run of zeros, looked for from place `i` on. -/
def longestRun : ℕ → List ℕ → Run → Run
  | _, [], best => best
  | i, g :: gs, best =>
      let n := ((g :: gs).takeWhile (· = 0)).length
      longestRun (i + 1) gs (if best.length < n then ⟨i, n⟩ else best)

/-- The text of the groups. One zero group alone is written. -/
def text (groups : List ℕ) : List UInt8 :=
  let run := longestRun 0 groups ⟨0, 0⟩
  if run.length < 2 then join groups
  else join (groups.take run.start) ++ [colon, colon] ++
    join (groups.drop (run.start + run.length))

/-- An address in network order, by groups and by bytes. -/
def groups : List UInt8 → List ℕ
  | [] => []
  | [_] => []
  | high :: low :: bs => (256 * high.toNat + low.toNat) :: groups bs

def bytes (groups : List ℕ) : List UInt8 :=
  groups.flatMap fun g => [.ofNat (g / 256), .ofNat (g % 256)]

/-- What the last characters were. -/
inductive Mode
  | start
  | firstColon
  | digits (value count : ℕ)
  | colon
  | twoColons

/-- The groups that are complete, and how many of them stand before two colons. -/
structure Scan where
  groups : List ℕ
  ellipsis : Option ℕ
  mode : Mode

def scanStep (s : Scan) (c : UInt8) : Option Scan :=
  if c = colon then
    match s.mode with
    | .start => some { s with mode := .firstColon }
    | .firstColon => some { s with ellipsis := some 0, mode := .twoColons }
    | .digits value _ => some { s with groups := s.groups ++ [value], mode := .colon }
    | .colon =>
        if s.ellipsis = none then
          some { s with ellipsis := some s.groups.length, mode := .twoColons }
        else none
    | .twoColons => none
  else
    match digitValue c.toNat with
    | none => none
    | some d =>
        match s.mode with
        | .start | .colon | .twoColons => some { s with mode := .digits d 1 }
        | .firstColon => none
        | .digits value count =>
            if count < 4 then some { s with mode := .digits (16 * value + d) (count + 1) } else none

/-- Two colons stand for one group at least. -/
def expand (groups : List ℕ) : Option ℕ → Option (List ℕ)
  | none => if groups.length = 8 then some groups else none
  | some n =>
      if groups.length < 8 then
        some (groups.take n ++ .replicate (8 - groups.length) 0 ++ groups.drop n)
      else none

def finish (s : Scan) : Option (List ℕ) :=
  match s.mode with
  | .digits value _ => expand (s.groups ++ [value]) s.ellipsis
  | .twoColons => expand s.groups s.ellipsis
  | .start | .firstColon | .colon => none

def parse (cs : List UInt8) : Option (List ℕ) :=
  (cs.foldlM scanStep ⟨[], none, .start⟩).bind finish

theorem bytes_append (gs gs' : List ℕ) : bytes (gs ++ gs') = bytes gs ++ bytes gs' :=
  List.flatMap_append

theorem bytes_groups {bs : List UInt8} (h : Even bs.length) : bytes (groups bs) = bs := by
  induction bs using groups.induct with
  | case1 => rfl
  | case2 b => exact absurd h (by simp)
  | case3 high low bs ih =>
    have heven : Even bs.length := by
      simpa [Nat.even_add_one] using h
    have hlt := low.toNat_lt
    have hhigh : (256 * high.toNat + low.toNat) / 256 = high.toNat := by omega
    have hlow : (256 * high.toNat + low.toNat) % 256 = low.toNat := by omega
    rw [groups, bytes, List.flatMap_cons, hhigh, hlow, UInt8.ofNat_toNat, UInt8.ofNat_toNat,
      ← bytes, ih heven]
    rfl

theorem groups_append {xs : List UInt8} (h : Even xs.length) (ys : List UInt8) :
    groups (xs ++ ys) = groups xs ++ groups ys := by
  induction xs using groups.induct with
  | case1 => rfl
  | case2 b => exact absurd h (by simp)
  | case3 high low bs ih =>
    have heven : Even bs.length := by
      simpa [Nat.even_add_one] using h
    exact congrArg _ (ih heven)

theorem length_groups (bs : List UInt8) : (groups bs).length = bs.length / 2 := by
  induction bs using groups.induct with
  | case1 => rfl
  | case2 b => simp [groups]
  | case3 high low bs ih =>
    rw [groups, List.length_cons, ih, List.length_cons, List.length_cons]
    omega

theorem lt_of_mem_groups {bs : List UInt8} {g : ℕ} (h : g ∈ groups bs) : g < 65536 := by
  induction bs using groups.induct with
  | case1 => cases h
  | case2 b => cases h
  | case3 high low bs ih =>
    rcases List.mem_cons.mp h with rfl | h
    · have hhigh := high.toNat_lt
      have hlow := low.toNat_lt
      omega
    · exact ih h

theorem digitValue_digit {d : ℕ} (h : d < 16) : digitValue (digit d).toNat = some d := by
  interval_cases d <;> rfl

theorem digit_ne_colon {d : ℕ} (h : d < 16) : digit d ≠ colon := by
  interval_cases d <;> decide

inductive Mode.Fresh : Mode → Prop
  | start : Fresh .start
  | colon : Fresh .colon
  | twoColons : Fresh .twoColons

theorem scanStep_digit {s : Scan} {d : ℕ} (hd : d < 16) (h : s.mode.Fresh) :
    scanStep s (digit d) = some { s with mode := .digits d 1 } := by
  rw [scanStep, if_neg (digit_ne_colon hd), digitValue_digit hd]
  obtain ⟨groups, ellipsis, mode⟩ := s
  cases h <;> rfl

theorem scan_digits {ds : List ℕ} (hds : ∀ d ∈ ds, d < 16) {s : Scan} {value count : ℕ}
    (hs : s.mode = .digits value count) (hcount : count + ds.length ≤ 4) :
    (ds.map digit).foldlM scanStep s = some
      { s with mode := .digits (ds.foldl (16 * · + ·) value) (count + ds.length) } := by
  induction ds generalizing s value count with
  | nil =>
    obtain ⟨groups, ellipsis, mode⟩ := s
    cases hs
    rfl
  | cons d ds ih =>
    rw [List.length_cons] at hcount
    have hd : d < 16 := hds d List.mem_cons_self
    have hstep : scanStep s (digit d) =
        some { s with mode := .digits (16 * value + d) (count + 1) } := by
      rw [scanStep, if_neg (digit_ne_colon hd), digitValue_digit hd, hs]
      exact if_pos (by omega)
    rw [List.map_cons, List.foldlM_cons, hstep]
    have hrest := ih (fun e he => hds e (List.mem_cons_of_mem d he))
      (s := { s with mode := .digits (16 * value + d) (count + 1) }) rfl (by omega)
    rw [Nat.add_assoc, Nat.add_comm 1] at hrest
    exact hrest

theorem scan_hex {group : ℕ} (hgroup : group < 65536) {s : Scan} (hs : s.mode.Fresh) :
    ∃ count, (hex group).foldlM scanStep s = some { s with mode := .digits group count } := by
  by_cases hzero : group = 0
  · subst hzero
    refine ⟨1, ?_⟩
    rw [hex, if_pos rfl, List.foldlM_cons, scanStep_digit (by decide) hs]
    rfl
  · have hlength : (Nat.digits 16 group).reverse.length ≤ 4 := by
      rw [List.length_reverse, Nat.digits_length_le_iff (by decide)]
      exact hgroup
    have hlt : ∀ d ∈ (Nat.digits 16 group).reverse, d < 16 := fun d hd =>
      Nat.digits_lt_base (by decide) (List.mem_reverse.mp hd)
    have hvalue := foldl_reverse_digits 16 group
    rw [hex, if_neg hzero, ← List.map_reverse]
    cases hds : (Nat.digits 16 group).reverse with
    | nil =>
      rw [List.reverse_eq_nil_iff, Nat.digits_eq_nil_iff_eq_zero] at hds
      exact absurd hds hzero
    | cons d ds =>
      rw [hds] at hlength hlt hvalue
      rw [List.length_cons] at hlength
      rw [List.map_cons, List.foldlM_cons, scanStep_digit (hlt d List.mem_cons_self) hs]
      refine ⟨1 + ds.length, ?_⟩
      have hrest := scan_digits (fun e he => hlt e (List.mem_cons_of_mem d he))
        (s := { s with mode := .digits d 1 }) rfl (by omega)
      rw [List.foldl_cons, Nat.mul_zero, Nat.zero_add] at hvalue
      rw [hvalue] at hrest
      exact hrest

theorem join_cons_cons (g g' : ℕ) (gs : List ℕ) :
    join (g :: g' :: gs) = hex g ++ colon :: join (g' :: gs) := by
  rw [join, List.map_cons, List.map_cons, List.intercalate_cons_cons, List.append_assoc]
  rfl

theorem scan_join {groups : List ℕ} (hne : groups ≠ []) (hlt : ∀ g ∈ groups, g < 65536) {s : Scan}
    (hs : s.mode.Fresh) : ∃ count, (join groups).foldlM scanStep s = some
      ⟨s.groups ++ groups.dropLast, s.ellipsis, .digits (groups.getLast hne) count⟩ := by
  induction groups generalizing s with
  | nil => exact absurd rfl hne
  | cons g gs ih =>
    obtain ⟨count, hhex⟩ := scan_hex (hlt g List.mem_cons_self) hs
    cases gs with
    | nil =>
      refine ⟨count, ?_⟩
      rw [join, List.map_singleton, List.intercalate_singleton, hhex]
      simp
    | cons g' gs =>
      obtain ⟨count', hrest⟩ := ih (List.cons_ne_nil g' gs)
        (fun e he => hlt e (List.mem_cons_of_mem g he)) (s := ⟨s.groups ++ [g], s.ellipsis, .colon⟩)
        .colon
      refine ⟨count', ?_⟩
      rw [join_cons_cons, List.foldlM_append, hhex, Option.bind_eq_bind, Option.bind_some,
        List.foldlM_cons]
      rw [List.getLast_cons (List.cons_ne_nil g' gs),
        List.dropLast_cons_of_ne_nil (List.cons_ne_nil g' gs), List.append_cons]
      exact hrest

theorem scan_front {groups : List ℕ} (hlt : ∀ g ∈ groups, g < 65536) :
    (join groups ++ [colon, colon]).foldlM scanStep ⟨[], none, .start⟩ =
      some ⟨groups, some groups.length, .twoColons⟩ := by
  by_cases hne : groups = []
  · subst hne
    rfl
  · obtain ⟨count, hjoin⟩ := scan_join hne hlt (s := ⟨[], none, .start⟩) .start
    rw [List.foldlM_append, hjoin, Option.bind_eq_bind, Option.bind_some, List.nil_append]
    conv_rhs => rw [← List.dropLast_append_getLast hne]
    rfl

theorem parse_twoColons {vs ws : List ℕ} (hvs : ∀ g ∈ vs, g < 65536) (hws : ∀ g ∈ ws, g < 65536)
    (hlength : vs.length + ws.length < 8) : parse (join vs ++ [colon, colon] ++ join ws) =
      some (vs ++ .replicate (8 - (vs.length + ws.length)) 0 ++ ws) := by
  have hexpand : expand (vs ++ ws) (some vs.length) =
      some (vs ++ .replicate (8 - (vs.length + ws.length)) 0 ++ ws) := by
    rw [expand, if_pos (by simpa using hlength), List.take_left, List.drop_left, List.length_append]
  rw [parse, List.foldlM_append, scan_front hvs, Option.bind_eq_bind, Option.bind_some]
  by_cases hne : ws = []
  · subst hne
    rw [← hexpand, List.append_nil]
    rfl
  · obtain ⟨count, hjoin⟩ := scan_join hne hws (s := ⟨vs, some vs.length, .twoColons⟩) .twoColons
    rw [hjoin, ← hexpand, Option.bind_some, finish]
    dsimp only
    rw [List.append_assoc, List.dropLast_append_getLast hne]

theorem zeroRun_lt {vs : List ℕ} (zs : List ℕ) (h : ∃ g ∈ vs, g ≠ 0) :
    ((vs ++ zs).takeWhile (· = 0)).length < vs.length := by
  induction vs with
  | nil =>
    obtain ⟨g, hg, -⟩ := h
    cases hg
  | cons v vs ih =>
    by_cases hv : v = 0
    · have htail : ∃ g ∈ vs, g ≠ 0 := by
        obtain ⟨g, hg, hne⟩ := h
        rcases List.mem_cons.mp hg with rfl | hg
        · exact absurd hv hne
        · exact ⟨g, hg, hne⟩
      simpa [hv] using ih htail
    · simp [hv]

/-- What is left cannot hold a longer run. -/
theorem longestRun_of_length_le {gs : List ℕ} {i : ℕ} {best : Run} (h : gs.length ≤ best.length) :
    longestRun i gs best = best := by
  induction gs generalizing i with
  | nil => rfl
  | cons g gs ih =>
    have hle := ((g :: gs).takeWhile_sublist (· = 0)).length_le
    rw [longestRun, if_neg (by omega)]
    rw [List.length_cons] at h
    exact ih (by omega)

theorem longestRun_replicate {i n : ℕ} {best : Run} (h : best.length < n) :
    longestRun i (.replicate n 0) best = ⟨i, n⟩ := by
  cases n with
  | zero => exact absurd h (Nat.not_lt_zero _)
  | succ n =>
    have hrun : ((List.replicate (n + 1) 0).takeWhile (· = 0)).length = n + 1 := by simp
    rw [List.replicate_succ] at hrun ⊢
    rw [longestRun, hrun, if_pos h]
    exact longestRun_of_length_le (by simp)

/-- Zeros behind no more other groups than they are make up the longest run: before the last of
these there is no room for as long a one. -/
theorem longestRun_append {vs : List ℕ} {n : ℕ} (hlast : vs.getLast? ≠ some 0)
    (hlength : vs.length ≤ n) {i : ℕ} {best : Run} (hbest : best.length < n) :
    longestRun i (vs ++ .replicate n 0) best = ⟨i + vs.length, n⟩ := by
  induction vs generalizing i best with
  | nil => exact longestRun_replicate hbest
  | cons v vs ih =>
    have hne : v :: vs ≠ [] := List.cons_ne_nil v vs
    have hshort := zeroRun_lt (.replicate n 0) ⟨_, List.getLast_mem hne, fun hzero =>
      hlast (by rw [List.getLast?_eq_getLast_of_ne_nil hne, hzero])⟩
    have htail : vs.getLast? ≠ some 0 := by
      cases vs with
      | nil => nofun
      | cons w ws => rwa [List.getLast?_cons_cons] at hlast
    rw [List.length_cons] at hlength hshort
    rw [List.cons_append, longestRun, List.length_cons, ← Nat.add_assoc, Nat.add_right_comm]
    apply ih htail (by omega)
    split_ifs
    · rw [List.cons_append] at hshort
      exact lt_of_lt_of_le hshort hlength
    · exact hbest

/-- An address with no more groups before its last zeros than zeros ends in two colons. -/
theorem text_append_replicate {vs : List ℕ} {n : ℕ} (hlast : vs.getLast? ≠ some 0)
    (hlength : vs.length ≤ n) (htwo : 2 ≤ n) :
    text (vs ++ .replicate n 0) = join vs ++ [colon, colon] := by
  have hnone : Run.length ⟨0, 0⟩ < n := Nat.lt_of_lt_of_le Nat.two_pos htwo
  have hrun := longestRun_append hlast hlength (i := 0) hnone
  rw [text, hrun]
  dsimp only
  rw [if_neg (by omega), Nat.zero_add, List.take_left, List.drop_of_length_le (by simp)]
  exact List.append_nil _

-- `2001:db8:0:1::`
example : text ([0x2001, 0xdb8, 0, 1] ++ .replicate 4 0) = [0x32, 0x30, 0x30, 0x31, 0x3A, 0x64,
    0x62, 0x38, 0x3A, 0x30, 0x3A, 0x31, 0x3A, 0x3A] := by decide

def AddressChar (b : UInt8) : Prop := b = colon ∨ ∃ d < 16, b = digit d

instance : DecidablePred AddressChar := fun b =>
  inferInstanceAs (Decidable (b = colon ∨ ∃ d < 16, b = digit d))

theorem addressChar_of_mem_hex {g : ℕ} {b : UInt8} (h : b ∈ hex g) : AddressChar b := by
  rw [hex] at h
  split_ifs at h with hzero
  · exact .inr ⟨0, by decide, List.mem_singleton.mp h⟩
  · obtain ⟨d, hd, rfl⟩ := List.mem_map.mp (List.mem_reverse.mp h)
    exact .inr ⟨d, Nat.digits_lt_base (by decide) hd, rfl⟩

theorem addressChar_of_mem_join {gs : List ℕ} {b : UInt8} (h : b ∈ join gs) : AddressChar b := by
  induction gs with
  | nil => cases h
  | cons g gs ih =>
    cases gs with
    | nil =>
      rw [join, List.map_singleton, List.intercalate_singleton] at h
      exact addressChar_of_mem_hex h
    | cons g' gs =>
      rw [join_cons_cons] at h
      rcases List.mem_append.mp h with h | h
      · exact addressChar_of_mem_hex h
      · rcases List.mem_cons.mp h with rfl | h
        · exact .inl rfl
        · exact ih h

theorem length_hex_le {g : ℕ} (h : g < 65536) : (hex g).length ≤ 4 := by
  rw [hex]
  split_ifs
  · decide
  · rw [List.length_reverse, List.length_map, Nat.digits_length_le_iff (by decide)]
    exact h

theorem length_join_le {gs : List ℕ} (hlt : ∀ g ∈ gs, g < 65536) :
    (join gs).length ≤ 5 * gs.length := by
  induction gs with
  | nil => exact Nat.zero_le _
  | cons g gs ih =>
    have hhex := length_hex_le (hlt g List.mem_cons_self)
    have hrest := ih fun e he => hlt e (List.mem_cons_of_mem g he)
    cases gs with
    | nil =>
      rw [join, List.map_singleton, List.intercalate_singleton, List.length_singleton]
      omega
    | cons g' gs =>
      rw [join_cons_cons, List.length_append, List.length_cons, List.length_cons]
      omega

theorem exists_eq_append_replicate (gs : List ℕ) :
    ∃ vs n, gs = vs ++ .replicate n 0 ∧ vs.getLast? ≠ some 0 := by
  induction gs using List.reverseRecOn with
  | nil => exact ⟨[], 0, rfl, nofun⟩
  | append_singleton gs g ih =>
    by_cases hg : g = 0
    · obtain ⟨vs, n, rfl, hlast⟩ := ih
      refine ⟨vs, n + 1, ?_, hlast⟩
      rw [hg, List.append_assoc, List.replicate_succ']
    · exact ⟨gs ++ [g], 0, by simp, by simpa using hg⟩

/-- The text of an address whose lower half is zero ends in two colons, so that groups written
behind it become the last ones of the address. -/
structure Upper (us : List ℕ) : Prop where
  chars : ∀ b ∈ text (us ++ .replicate 4 0), AddressChar b
  length : (text (us ++ .replicate 4 0)).length ≤ 22
  parse : ∀ ws, ws.length < 4 → (∀ g ∈ ws, g < 65536) →
    parse (text (us ++ .replicate 4 0) ++ join ws) = some (us ++ .replicate (4 - ws.length) 0 ++ ws)

theorem upper {us : List ℕ} (hlength : us.length = 4) (hlt : ∀ g ∈ us, g < 65536) : Upper us := by
  obtain ⟨vs, n, rfl, hlast⟩ := exists_eq_append_replicate us
  rw [List.length_append, List.length_replicate] at hlength
  have hvs : ∀ g ∈ vs, g < 65536 := fun g hg => hlt g (List.mem_append_left _ hg)
  have htext : text (vs ++ .replicate n 0 ++ .replicate 4 0) = join vs ++ [colon, colon] := by
    rw [List.append_assoc, ← List.replicate_add]
    exact text_append_replicate hlast (by omega) (by omega)
  refine ⟨fun b hb => ?_, ?_, fun ws hws hwlt => ?_⟩
  · rw [htext] at hb
    rcases List.mem_append.mp hb with hb | hb
    · exact addressChar_of_mem_join hb
    · exact .inl (by simpa using hb)
  · have hjoin := length_join_le hvs
    rw [htext, List.length_append]
    simp only [List.length_cons, List.length_nil]
    omega
  · have hzeros : 8 - (vs.length + ws.length) = n + (4 - ws.length) := by omega
    rw [htext, parse_twoColons hvs hwlt (by omega), hzeros, List.replicate_add,
      ← List.append_assoc vs]

/-- A run of zeros in the groups that begin at place `i`. -/
structure ZerosAt (i : ℕ) (gs : List ℕ) (r : Run) : Prop where
  start : i ≤ r.start
  zeros : (gs.drop (r.start - i)).take r.length = .replicate r.length 0

theorem take_takeWhile_zero (gs : List ℕ) : gs.take (gs.takeWhile (· = 0)).length =
    .replicate (gs.takeWhile (· = 0)).length 0 := by
  rw [← List.prefix_iff_eq_take.mp (List.takeWhile_prefix (p := fun g => decide (g = 0)) (l := gs)),
    List.eq_replicate_length]
  intro g hg
  simpa using List.mem_takeWhile_imp hg

/-- What is found is a run of zeros, or nothing was longer than what there was. -/
theorem longestRun_zerosAt (i : ℕ) (gs : List ℕ) (best : Run) :
    longestRun i gs best = best ∨ ZerosAt i gs (longestRun i gs best) := by
  induction gs generalizing i best with
  | nil => exact .inl rfl
  | cons g gs ih =>
    rw [longestRun]
    have hnext {best' : Run} (h : ZerosAt (i + 1) gs (longestRun (i + 1) gs best')) :
        ZerosAt i (g :: gs) (longestRun (i + 1) gs best') := by
      obtain ⟨hstart, hzeros⟩ := h
      have hplace : (longestRun (i + 1) gs best').start - i =
          (longestRun (i + 1) gs best').start - (i + 1) + 1 := by omega
      refine ⟨Nat.le_of_succ_le hstart, ?_⟩
      rw [hplace, List.drop_succ_cons]
      exact hzeros
    split_ifs with hlonger
    · rcases ih (i + 1) ⟨i, ((g :: gs).takeWhile (· = 0)).length⟩ with heq | hlater
      · rw [heq]
        refine .inr ⟨le_rfl, ?_⟩
        rw [Nat.sub_self, List.drop_zero]
        exact take_takeWhile_zero (g :: gs)
      · exact .inr (hnext hlater)
    · exact (ih (i + 1) best).imp_right hnext

theorem parse_join {gs : List ℕ} (hlength : gs.length = 8) (hlt : ∀ g ∈ gs, g < 65536) :
    parse (join gs) = some gs := by
  have hne : gs ≠ [] := by
    rintro rfl
    cases hlength
  obtain ⟨count, hjoin⟩ := scan_join hne hlt (s := ⟨[], none, .start⟩) .start
  rw [parse, hjoin, Option.bind_some, finish]
  dsimp only
  rw [List.nil_append, List.dropLast_append_getLast hne, expand, if_pos hlength]

/-- The text of an address is read as that address. -/
theorem parse_text {gs : List ℕ} (hlength : gs.length = 8) (hlt : ∀ g ∈ gs, g < 65536) :
    parse (text gs) = some gs := by
  rw [text]
  rcases longestRun_zerosAt 0 gs ⟨0, 0⟩ with heq | ⟨-, hzeros⟩
  · rw [heq]
    exact parse_join hlength hlt
  · generalize longestRun 0 gs ⟨0, 0⟩ = r at hzeros ⊢
    split_ifs with hshort
    · exact parse_join hlength hlt
    · rw [Nat.sub_zero] at hzeros
      have hroom : r.length ≤ gs.length - r.start := by
        have h := congrArg List.length hzeros
        rw [List.length_take, List.length_drop, List.length_replicate] at h
        omega
      have hfront : (gs.take r.start).length = r.start := by
        rw [List.length_take]
        omega
      have hback : (gs.drop (r.start + r.length)).length = 8 - (r.start + r.length) := by
        rw [List.length_drop, hlength]
      have hmissing : 8 - ((gs.take r.start).length + (gs.drop (r.start + r.length)).length) =
          r.length := by
        rw [hfront, hback]
        omega
      rw [parse_twoColons (fun g hg => hlt g (List.mem_of_mem_take hg))
        (fun g hg => hlt g (List.mem_of_mem_drop hg)) (by rw [hfront, hback]; omega), hmissing,
        ← hzeros, ← List.drop_drop, List.append_assoc, List.take_append_drop,
        List.take_append_drop]

theorem addressChar_of_mem_text {gs : List ℕ} {b : UInt8} (h : b ∈ text gs) : AddressChar b := by
  rw [text] at h
  split_ifs at h
  · exact addressChar_of_mem_join h
  · rcases List.mem_append.mp h with h | h
    · rcases List.mem_append.mp h with h | h
      · exact addressChar_of_mem_join h
      · exact .inl (by simpa using h)
    · exact addressChar_of_mem_join h

end RpiCc2520.Ip6Text
