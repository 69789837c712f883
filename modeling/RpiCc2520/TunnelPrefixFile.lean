import RpiCc2520.TunnelPrefix

/-! The assignments file across a restart: it is written over from the start without being cut
off, and read back through a buffer of fixed size. -/
namespace RpiCc2520.TunnelPrefix
open JsonText (isSpace)

/-- What the server relies on in `encoding/json`: it reads back what it has written, and loads
nothing from a text that is cut short or followed by more than white space. Another key makes a
text no shorter. -/
structure Library.JsonRoundTrips (lib : Library) : Prop where
  loads : ∀ m spaces, (∀ b ∈ spaces, isSpace b) → lib.unmarshal (lib.marshal m ++ spaces) = some m
  trailing : ∀ m rest, (∃ b ∈ rest, ¬ isSpace b) → lib.unmarshal (lib.marshal m ++ rest) = none
  truncated : ∀ m n, n < (lib.marshal m).length → lib.unmarshal ((lib.marshal m).take n) = none
  grows : ∀ (m : Assignments) id p, m.lookup id = none →
    (lib.marshal m).length ≤ (lib.marshal (m.insert id p)).length

def assign (lib : Library) : List String → PrefixManager → Option PrefixManager
  | [], pm => some pm
  | id :: ids, pm =>
      match getPrefix lib id pm with
      | some (.ok _, pm') => assign lib ids pm'
      | _ => none

/-- The manager after a restart knows what the one before it knew, and goes by it from then
on. -/
structure Restored (lib : Library) (before after : PrefixManager) : Prop where
  prefixes : after.prefixes = before.prefixes
  inuse : ∀ p b, after.inuse.lookup p = some b ↔
    b = true ∧ ∃ id, before.prefixes.lookup id = some p
  kept : ∀ id p, before.prefixes.lookup id = some p →
    ∀ ids later, getPrefixes lib ids after = some later →
      (∃ pm, getPrefix lib id later = some (.ok p, pm)) ∧
        ∀ id', before.prefixes.lookup id' = none → later.prefixes.lookup id' ≠ some p

variable {lib : Library} {pm before after : PrefixManager}

/-- `id` has `p`, and no client that is new has it. -/
structure Holds (known : Assignments) (id p : String) (pm : PrefixManager) : Prop where
  assigned : pm.prefixes.lookup id = some p
  used : pm.inuse.lookup p = some true
  others : ∀ id', known.lookup id' = none → pm.prefixes.lookup id' ≠ some p

theorem holds_answered {known : Assignments} {id p id' : String}
    {answer : Except String String} {pm' : PrefixManager} (h : Holds known id p pm)
    (a : Answered lib id' pm answer pm') : Holds known id p pm' := by
  have hassigned := lookup_answered a h.assigned
  cases a with
  | known => exact ⟨hassigned, h.used, h.others⟩
  | refused => exact h
  | @assigned i new contained free =>
    have hp : p ≠ prefixText lib i := by
      rintro rfl
      exact free h.used
    constructor
    · exact hassigned
    · change (pm.inuse.insert (prefixText lib i) true).lookup p = some true
      rw [Finmap.lookup_insert_of_ne _ hp, h.used]
    · intro id'' hnew hl
      rcases lookup_insert_eq_some.mp hl with ⟨-, he⟩ | ⟨-, hold⟩
      · exact hp he
      · exact h.others id'' hnew hold

theorem holds_getPrefixes {known : Assignments} {id p : String} {ids : List String}
    {later : PrefixManager} (h : Holds known id p pm)
    (calls : getPrefixes lib ids pm = some later) : Holds known id p later := by
  induction ids generalizing pm with
  | nil => cases calls; exact h
  | cons id' ids ih =>
    obtain ⟨⟨answer, u⟩, hu, calls⟩ := Option.bind_eq_some_iff.mp calls
    exact ih (holds_answered h (answered_of_getPrefix hu)) calls

/-- All that a restart can lose is the map. -/
theorem restored_iff {file : List UInt8} {range : Cidr} :
    Restored lib before (create lib file range) ↔
      (create lib file range).prefixes = before.prefixes := by
  refine ⟨Restored.prefixes, fun hp => ?_⟩
  have hinuse (p : String) (b : Bool) : (create lib file range).inuse.lookup p = some b ↔
      b = true ∧ ∃ id, before.prefixes.lookup id = some p := by
    rw [← hp]
    exact lookup_inuseOf _ p b
  refine ⟨hp, hinuse, fun id p hl ids later calls => ?_⟩
  have hholds : Holds before.prefixes id p (create lib file range) := by
    refine ⟨hp ▸ hl, (hinuse p true).mpr ⟨rfl, id, hl⟩, fun id' hnew he => ?_⟩
    rw [hp, hnew] at he
    cases he
  have hlater := holds_getPrefixes hholds calls
  exact ⟨⟨writeFile lib later, by simp only [getPrefix, hlater.assigned]⟩, hlater.others⟩

/-- The file behind the text of the assignments is still what it was at the start. -/
def TailKept (lib : Library) (file : List UInt8) (pm : PrefixManager) : Prop :=
  ∀ n, (lib.marshal pm.prefixes).length ≤ n → pm.prefixfile.drop n = file.drop n

/-- The text of the assignments written over the start of the initial file. -/
def Written (lib : Library) (file : List UInt8) (pm : PrefixManager) : Prop :=
  pm.prefixfile = lib.marshal pm.prefixes ++ file.drop (lib.marshal pm.prefixes).length

theorem Written.tailKept {file : List UInt8} (h : Written lib file pm) :
    TailKept lib file pm := by
  intro n hn
  rw [h, List.drop_append, List.drop_of_length_le hn, List.nil_append, List.drop_drop,
    Nat.add_sub_cancel' hn]

theorem written_answered (json : lib.JsonRoundTrips) {file : List UInt8} {id p : String}
    {pm' : PrefixManager} (h : TailKept lib file pm) (a : Answered lib id pm (.ok p) pm') :
    Written lib file pm' ∧ pm'.prefixes.lookup id = some p := by
  cases a with
  | known old => exact ⟨congrArg _ (h _ le_rfl), old⟩
  | assigned new =>
    exact ⟨congrArg _ (h _ (json.grows _ _ _ new)), Finmap.lookup_insert _⟩

theorem written_assign (json : lib.JsonRoundTrips) {file : List UInt8} {ids : List String}
    (hids : ids ≠ []) (h : TailKept lib file pm) (calls : assign lib ids pm = some before) :
    Written lib file before ∧ before.prefixes ≠ ∅ := by
  induction ids generalizing pm with
  | nil => exact absurd rfl hids
  | cons id ids ih =>
    rw [assign] at calls
    split at calls
    · next p pm' hg =>
      obtain ⟨hw, hl⟩ := written_answered json h (answered_of_getPrefix hg)
      cases ids with
      | nil =>
        cases calls
        refine ⟨hw, fun he => ?_⟩
        rw [he, Finmap.lookup_empty] at hl
        cases hl
      | cons id' ids => exact ih (List.cons_ne_nil id' ids) hw.tailKept calls
    · cases calls

/-- The text fits the buffer and only white space of the initial file follows it there. -/
def Fits (text file : List UInt8) : Prop :=
  text.length ≤ assignbufLen ∧ ∀ b ∈ (file.take assignbufLen).drop text.length, isSpace b

instance (text file : List UInt8) : Decidable (Fits text file) :=
  inferInstanceAs (Decidable (_ ∧ ∀ b ∈ (file.take assignbufLen).drop text.length, isSpace b))

theorem unmarshal_written (json : lib.JsonRoundTrips) (m : Assignments) (file : List UInt8) :
    lib.unmarshal ((lib.marshal m ++ file.drop (lib.marshal m).length).take assignbufLen) =
      if Fits (lib.marshal m) file then some m else none := by
  by_cases hlen : (lib.marshal m).length ≤ assignbufLen
  · rw [List.take_append, List.take_of_length_le hlen, ← List.drop_take]
    by_cases hspace : ∀ b ∈ (file.take assignbufLen).drop (lib.marshal m).length, isSpace b
    · rw [if_pos ⟨hlen, hspace⟩, json.loads m _ hspace]
    · rw [if_neg fun hfits => hspace hfits.2]
      push Not at hspace
      exact json.trailing m _ (by simpa using hspace)
  · rw [if_neg fun hfits => hlen hfits.1, List.take_append_of_le_length (by omega)]
    exact json.truncated m _ (by omega)

/-- The assignments survive exactly when none was written or their text fits. -/
theorem survives_iff_fits (lib : Library) (json : lib.JsonRoundTrips) (file : List UInt8)
    (range range' : Cidr) (ids : List String) (before : PrefixManager)
    (calls : assign lib ids (create lib file range) = some before) :
    Restored lib before (create lib before.prefixfile range') ↔
      ids = [] ∨ Fits (lib.marshal before.prefixes) file := by
  rw [restored_iff]
  by_cases hids : ids = []
  · subst hids
    cases calls
    exact iff_of_true rfl (.inl rfl)
  · have hstart : TailKept lib file (create lib file range) := fun _ _ => rfl
    obtain ⟨hw, hne⟩ := written_assign json hids hstart calls
    have hload : (create lib before.prefixfile range').prefixes =
        (if Fits (lib.marshal before.prefixes) file then some before.prefixes else none).getD ∅ := by
      rw [← unmarshal_written json, ← hw]
      rfl
    rw [hload, or_iff_right hids]
    by_cases hfits : Fits (lib.marshal before.prefixes) file
    · rw [if_pos hfits]
      exact iff_of_true rfl hfits
    · rw [if_neg hfits]
      exact iff_of_false hne.symm hfits

theorem sampleLibrary_jsonRoundTrips : sampleLibrary.JsonRoundTrips :=
  ⟨fun m _ => JsonText.unmarshal_marshal m, fun m _ => JsonText.unmarshal_trailing m,
    fun m _ => JsonText.unmarshal_truncated m, fun _ _ _ => JsonText.marshal_grows⟩

/-- The text of an empty object, the braces `n` blanks apart. -/
def emptyFile (n : ℕ) : List UInt8 :=
  JsonText.leftBrace :: (List.replicate n 0x20 ++ [JsonText.rightBrace])

theorem survives_iff_fits_empty :
    ∃ before, assign sampleLibrary ["a"] (create sampleLibrary (emptyFile 0) sampleRange) =
        some before ∧ before.prefixes.lookup "a" = some "2001:db8::/64" ∧
      Restored sampleLibrary before (create sampleLibrary before.prefixfile sampleRange) := by
  have hrun : ((assign sampleLibrary ["a"] (create sampleLibrary (emptyFile 0) sampleRange)).map
      fun pm => (pm.prefixes.lookup "a", (JsonText.marshal pm.prefixes).length)) =
        some (some "2001:db8::/64", 21) := by decide +kernel
  obtain ⟨before, calls, hp⟩ := Option.map_eq_some_iff.mp hrun
  obtain ⟨hp, hlen⟩ := Prod.mk.inj hp
  have hfits : Fits (sampleLibrary.marshal before.prefixes) (emptyFile 0) := by
    change Fits (JsonText.marshal before.prefixes) (emptyFile 0)
    rw [Fits, hlen]
    decide +kernel
  exact ⟨before, calls, hp, (survives_iff_fits sampleLibrary sampleLibrary_jsonRoundTrips
    (emptyFile 0) sampleRange sampleRange ["a"] before calls).mpr (.inr hfits)⟩

/-- Behind the text of one assignment the old closing brace is left, so after the restart the
prefix of the first client goes to the next one. -/
theorem spaced_file_lost :
    ∃ before after, sampleLibrary.unmarshal ((emptyFile 40).take assignbufLen) = some ∅ ∧
      assign sampleLibrary ["a"] (create sampleLibrary (emptyFile 40) sampleRange) =
        some before ∧
      assign sampleLibrary ["b"] (create sampleLibrary before.prefixfile sampleRange) =
        some after ∧
      before.prefixes.lookup "a" = some "2001:db8::/64" ∧
      after.prefixes.lookup "b" = some "2001:db8::/64" ∧
      ¬ Restored sampleLibrary before (create sampleLibrary before.prefixfile sampleRange) := by
  have hrun : ((assign sampleLibrary ["a"] (create sampleLibrary (emptyFile 40) sampleRange)).bind
      fun before => (assign sampleLibrary ["b"]
        (create sampleLibrary before.prefixfile sampleRange)).map fun after =>
          (before.prefixes.lookup "a", after.prefixes.lookup "b",
            (create sampleLibrary before.prefixfile sampleRange).prefixes.lookup "a")) =
      some (some "2001:db8::/64", some "2001:db8::/64", none) := by decide +kernel
  obtain ⟨before, calls, hrun⟩ := Option.bind_eq_some_iff.mp hrun
  obtain ⟨after, calls', hrun⟩ := Option.map_eq_some_iff.mp hrun
  obtain ⟨ha, hrun⟩ := Prod.mk.inj hrun
  obtain ⟨hb, hlost⟩ := Prod.mk.inj hrun
  refine ⟨before, after, by decide +kernel, calls, calls', ha, hb, fun hrestored => ?_⟩
  rw [hrestored.prefixes, ha] at hlost
  cases hlost

end RpiCc2520.TunnelPrefix
