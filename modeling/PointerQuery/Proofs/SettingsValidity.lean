import Mathlib.Data.List.Induction
import PointerQuery.Proofs.Trimming
import PointerQuery.Settings

namespace PointerQuery

/-- Looking for a key finds what has it, if every key finds its own. -/
theorem find?_key_eq_some_iff {α : Type} {all : List α} {key : α → String}
    (hall : ∀ a, all.find? (fun b => key b == key a) = some a) {k : String} {a : α} :
    all.find? (fun b => key b == k) = some a ↔ key a = k := by
  constructor
  · intro h
    simpa using List.find?_some h
  · rintro rfl
    exact hall a

theorem LogLevel.ofText?_eq_some_iff {text : String} {l : LogLevel} :
    ofText? text = some l ↔ (Text.trim text.toList).map Char.toLower = l.name.toList := by
  have hname := find?_key_eq_some_iff ofName?_name (a := l)
    (k := String.ofList ((Text.trim text.toList).map Char.toLower))
  rw [ofText?, ofName?, hname, ← String.toList_inj, String.toList_ofList, eq_comm]

namespace Setting

/-- The texts that a setting may have: a layout that can be read, a directory that is named, a level in any case,
a file whose name ends in `.toml` or none, and the truth values, up to white space around them. -/
def Valid : Setting → String → Prop
  | dataLayout, text => ∃ L, (Layout.ofText text).value = some L
  | logDir, text => ¬Text.AllBlank text.toList
  | logLevel, text => ∃ l : LogLevel, (Text.trim text.toList).map Char.toLower = l.name.toList
  | logSpecFile, text =>
    Text.AllBlank text.toList ∨ ∃ file, Text.Padded (file ++ ".toml".toList) text.toList
  | logToFile, text | strictRecursion, text => ∃ b, Text.Padded (Text.boolText b).toList text.toList

/-- The text of a setting after some calls: the last that was valid for it, or else the one at the start. -/
inductive InForce (s : Setting) (calls : List (String × String)) : String → Prop where
  | accepted (before after : List (String × String)) (text : String) :
      calls = before ++ (s.key, text) :: after → s.Valid text →
      (∀ c ∈ after, c.1 = s.key → ¬s.Valid c.2) → InForce s calls text
  | initial : (∀ c ∈ calls, c.1 = s.key → ¬s.Valid c.2) → InForce s calls (({} : Settings).get s)

theorem ofKey?_eq_some_iff {key : String} {s : Setting} : ofKey? key = some s ↔ s.key = key :=
  find?_key_eq_some_iff ofKey?_key

theorem key_injective {s t : Setting} (h : s.key = t.key) : s = t := by
  have hfound := ofKey?_eq_some_iff.mpr h
  rw [ofKey?_key] at hfound
  exact (Option.some.inj hfound).symm

theorem tight_toml : Text.Tight ".toml".toList :=
  ⟨by simp; decide, by simp; decide⟩

/-- The checks let pass what is valid. -/
theorem accepts_iff (s : Setting) (text : String) : (s.accepts text).value = true ↔ s.Valid text := by
  cases s with
  | dataLayout => simp [accepts, Valid, Option.isSome_iff_exists]
  | logDir => simp [accepts, Valid, ← Text.trim_eq_nil_iff]
  | logLevel => simp [accepts, Valid, Option.isSome_iff_exists, LogLevel.ofText?_eq_some_iff]
  | logSpecFile =>
    have hsuffix := Text.suffix_trim_iff tight_toml (by decide) text.toList
    simp only [accepts, Valid, Logged.value_pure, Bool.or_eq_true, List.isEmpty_iff, List.isSuffixOf_iff_suffix,
      Text.trim_eq_nil_iff, hsuffix]
  | logToFile | strictRecursion => simp [accepts, Valid, Option.isSome_iff_exists, Text.bool?_eq_some_iff]

theorem valid_initial (s : Setting) : s.Valid (({} : Settings).get s) := by
  rw [← accepts_iff]
  cases s <;> decide +kernel

/-- A call that is not valid for the setting leaves the text in force. -/
theorem InForce.append {s : Setting} {calls : List (String × String)} {text : String}
    (h : s.InForce calls text) {c : String × String} (hc : c.1 = s.key → ¬s.Valid c.2) :
    s.InForce (calls ++ [c]) text := by
  have hlast {rest : List (String × String)} (hrest : ∀ d ∈ rest, d.1 = s.key → ¬s.Valid d.2) :
      ∀ d ∈ rest ++ [c], d.1 = s.key → ¬s.Valid d.2 := by
    intro d hd
    rcases List.mem_append.mp hd with hd | hd
    · exact hrest d hd
    · rw [List.mem_singleton.mp hd]
      exact hc
  cases h with
  | accepted before after _ hcalls hvalid hafter =>
    refine .accepted before (after ++ [c]) text ?_ hvalid (hlast hafter)
    rw [hcalls, List.append_assoc, List.cons_append]
  | initial hnone => exact .initial (hlast hnone)

end Setting

namespace Settings

/-- The settings after a run of calls, of which some may have been refused. -/
def setAll (st : Settings) (calls : List (String × String)) : Settings :=
  calls.foldl (fun st c => (st.set c.1 c.2).value.2) st

/-- Each reading is read off the stored text. -/
structure Faithful (st : Settings) : Prop where
  level : LogLevel.ofText? st.logLevel = some st.level
  level_name : st.level.name ∈ ["off", "error", "warn", "info", "debug", "trace"]
  writesFile : Text.Padded (Text.boolText st.writesFile).toList st.logToFile.toList
  isStrict : Text.Padded (Text.boolText st.isStrict).toList st.strictRecursion.toList
  directory : st.directory ≠ ""
  directory_text : st.directory = Text.trimmed st.logDir ∧ Text.Tight st.directory.toList ∧
    Text.Padded st.directory.toList st.logDir.toList
  specFile : st.specFile? = none ∨ ∃ file, st.specFile? = some (file ++ ".toml")
  specFile_none : st.specFile? = none ↔ Text.AllBlank st.logSpecFile.toList
  specFile_text : ∀ file, st.specFile? = some file → file = Text.trimmed st.logSpecFile ∧ Text.Tight file.toList ∧
    Text.Padded file.toList st.logSpecFile.toList
  layout : (Layout.ofText st.dataLayout).value = some st.layout

/-- What a call can do: store a valid text under its key, or nothing. -/
theorem set_cases (st : Settings) (key text : String) :
    (∃ s : Setting, s.key = key ∧ s.Valid text ∧ (st.set key text).value = (true, st.put s text)) ∨
      (∀ s : Setting, s.key = key → ¬s.Valid text) ∧ (st.set key text).value = (false, st) := by
  unfold set
  cases hkey : Setting.ofKey? key with
  | none =>
    refine Or.inr ⟨?_, rfl⟩
    intro s hs
    rw [Setting.ofKey?_eq_some_iff.mpr hs] at hkey
    cases hkey
  | some s =>
    obtain rfl := Setting.ofKey?_eq_some_iff.mp hkey
    cases haccepts : (s.accepts text).value with
    | true =>
      refine Or.inl ⟨s, rfl, (s.accepts_iff text).mp haccepts, ?_⟩
      simp [haccepts]
    | false =>
      refine Or.inr ⟨?_, by simp [haccepts]⟩
      intro t ht hvalid
      obtain rfl := Setting.key_injective ht
      rw [(t.accepts_iff text).mpr hvalid] at haccepts
      cases haccepts

theorem get?_eq_some_iff (st : Settings) (key text : String) :
    st.get? key = some text ↔ ∃ s : Setting, s.key = key ∧ st.get s = text := by
  simp only [get?, Option.map_eq_some_iff, Setting.ofKey?_eq_some_iff]

theorem get?_put (st : Settings) (s : Setting) (text key : String) :
    (st.put s text).get? key = if key = s.key then some text else st.get? key := by
  unfold get?
  cases hkey : Setting.ofKey? key with
  | none =>
    rw [if_neg]
    · rfl
    · rintro rfl
      rw [Setting.ofKey?_key] at hkey
      cases hkey
  | some t =>
    obtain rfl := Setting.ofKey?_eq_some_iff.mp hkey
    have hiff : t.key = s.key ↔ t = s := ⟨Setting.key_injective, congrArg Setting.key⟩
    simp only [Option.map_some, get_put, hiff]
    split <;> rfl

theorem isSome_get?_iff (st : Settings) (key : String) : (st.get? key).isSome = true ↔ key ∈ st.keys := by
  have hall (s : Setting) : s ∈ Setting.all := by cases s <;> decide
  simp only [Option.isSome_iff_exists, get?_eq_some_iff, keys, List.mem_map]
  constructor
  · rintro ⟨_, s, hs, _⟩
    exact ⟨s, hall s, hs⟩
  · rintro ⟨s, _, hs⟩
    exact ⟨st.get s, s, hs, rfl⟩

theorem valid_set {st : Settings} (h : ∀ s : Setting, s.Valid (st.get s)) (key text : String) (s : Setting) :
    s.Valid ((st.set key text).value.2.get s) := by
  rcases set_cases st key text with ⟨t, _, hvalid, hset⟩ | ⟨_, hset⟩
  · rw [hset, get_put]
    split
    · rename_i hst
      exact hst ▸ hvalid
    · exact h s
  · rw [hset]
    exact h s

theorem inForce_set {st : Settings} {calls : List (String × String)} {s : Setting}
    (h : s.InForce calls (st.get s)) (c : String × String) :
    s.InForce (calls ++ [c]) ((st.set c.1 c.2).value.2.get s) := by
  rcases set_cases st c.1 c.2 with ⟨t, hkey, hvalid, hset⟩ | ⟨hrefused, hset⟩
  · rw [hset, get_put]
    split
    · rename_i hst
      obtain rfl := hst
      exact .accepted calls [] c.2 (by rw [hkey]) hvalid nofun
    · rename_i hst
      apply h.append
      intro hs
      exact absurd (Setting.key_injective (hs.symm.trans hkey.symm)) hst
  · rw [hset]
    exact h.append fun hs => hrefused s hs.symm

theorem setAll_concat (st : Settings) (calls : List (String × String)) (c : String × String) :
    st.setAll (calls ++ [c]) = ((st.setAll calls).set c.1 c.2).value.2 := by
  rw [setAll, List.foldl_append]
  rfl

theorem valid_setAll (calls : List (String × String)) (s : Setting) :
    s.Valid ((({} : Settings).setAll calls).get s) := by
  induction calls using List.reverseRecOn generalizing s with
  | nil => exact s.valid_initial
  | append_singleton calls c ih =>
    rw [setAll_concat]
    exact valid_set ih c.1 c.2 s

theorem inForce_setAll (calls : List (String × String)) (s : Setting) :
    s.InForce calls ((({} : Settings).setAll calls).get s) := by
  induction calls using List.reverseRecOn with
  | nil => exact .initial nofun
  | append_singleton calls c ih =>
    rw [setAll_concat]
    exact inForce_set ih c

theorem specFile?_eq_none_iff {st : Settings} : st.specFile? = none ↔ Text.AllBlank st.logSpecFile.toList := by
  simp [specFile?, ← Text.trimmed_eq_empty_iff]

theorem specFile?_eq_some_iff {st : Settings} {file : String} :
    st.specFile? = some file ↔ ¬Text.AllBlank st.logSpecFile.toList ∧ Text.trimmed st.logSpecFile = file := by
  simp [specFile?, ← Text.trimmed_eq_empty_iff]

theorem faithful_of_valid {st : Settings} (h : ∀ s : Setting, s.Valid (st.get s)) : st.Faithful where
  level := by
    obtain ⟨l, hl⟩ := h .logLevel
    rw [← LogLevel.ofText?_eq_some_iff] at hl
    change LogLevel.ofText? st.logLevel = some l at hl
    rw [level, hl]
    rfl
  level_name := by
    cases st.level <;> decide
  writesFile := by
    obtain ⟨b, hb⟩ := h .logToFile
    have hread := Text.bool?_eq_some_iff.mpr hb
    change Text.bool? st.logToFile = some b at hread
    rw [Settings.writesFile, hread]
    exact hb
  isStrict := by
    obtain ⟨b, hb⟩ := h .strictRecursion
    have hread := Text.bool?_eq_some_iff.mpr hb
    change Text.bool? st.strictRecursion = some b at hread
    rw [Settings.isStrict, hread]
    exact hb
  directory := by
    intro hempty
    exact h .logDir (Text.trimmed_eq_empty_iff.mp hempty)
  directory_text := ⟨rfl, Text.tight_trimmed st.logDir, Text.padded_trimmed st.logDir⟩
  specFile := by
    rcases h .logSpecFile with hblank | hfile
    · exact Or.inl (specFile?_eq_none_iff.mpr hblank)
    · obtain ⟨file, hfile⟩ :=
        (Text.suffix_trim_iff Setting.tight_toml (by decide) st.logSpecFile.toList).mpr hfile
      have hname : Text.trimmed st.logSpecFile = String.ofList file ++ ".toml" := by
        rw [Text.trimmed_eq_iff, String.toList_append, String.toList_ofList]
        exact hfile.symm
      exact Or.inr ⟨String.ofList file, by simp [specFile?, hname]⟩
  specFile_none := specFile?_eq_none_iff
  specFile_text := by
    intro file hfile
    obtain rfl := (specFile?_eq_some_iff.mp hfile).2
    exact ⟨rfl, Text.tight_trimmed st.logSpecFile, Text.padded_trimmed st.logSpecFile⟩
  layout := by
    obtain ⟨L, hL⟩ := h .dataLayout
    change (Layout.ofText st.dataLayout).value = some L at hL
    rw [layout, hL]
    rfl

end Settings

/-- Settings after any run of calls with any texts. The keys are always the same six; a call is accepted exactly if
its key is one of them and its text passes the check of that key, then the text is stored there and all else stays
as it is, and a call that is refused changes nothing. Every stored text passes its check, it is the last such text
that was given, or the one at the start if there was none, and every reading is read off the stored text. -/
theorem settings_stay_valid (calls : List (String × String)) :
    ∃ st, ({} : Settings).setAll calls = st ∧
      st.keys = ["plugins.pointsto.data_layout", "plugins.pointsto.log_dir", "plugins.pointsto.log_level",
        "plugins.pointsto.log_spec_file", "plugins.pointsto.log_to_file", "plugins.pointsto.strict_recursion"] ∧
      (∀ key, (st.get? key).isSome = true ↔ key ∈ st.keys) ∧
      (∀ (s : Setting) text, (s.accepts text).value = true ↔ s.Valid text) ∧
      (∀ key text, ((st.set key text).value.1 = true ↔ ∃ s : Setting, s.key = key ∧ s.Valid text) ∧
        ((st.set key text).value.1 = true → ∀ key', (st.set key text).value.2.get? key' =
          if key' = key then some text else st.get? key') ∧
        ((st.set key text).value.1 = false → (st.set key text).value.2 = st)) ∧
      (∀ s : Setting, s.Valid (st.get s) ∧ s.InForce calls (st.get s)) ∧
      st.Faithful := by
  refine ⟨_, rfl, rfl, Settings.isSome_get?_iff _, Setting.accepts_iff, ?_, ?_, ?_⟩
  · intro key text
    rcases Settings.set_cases (({} : Settings).setAll calls) key text with
      ⟨s, rfl, hvalid, hset⟩ | ⟨hrefused, hset⟩
    · rw [hset]
      refine ⟨⟨fun _ => ⟨s, rfl, hvalid⟩, fun _ => rfl⟩, fun _ key' => Settings.get?_put _ s text key', nofun⟩
    · rw [hset]
      refine ⟨⟨nofun, ?_⟩, nofun, fun _ => rfl⟩
      rintro ⟨s, hs, hvalid⟩
      exact absurd hvalid (hrefused s hs)
  · intro s
    exact ⟨Settings.valid_setAll calls s, Settings.inForce_setAll calls s⟩
  · exact Settings.faithful_of_valid (Settings.valid_setAll calls)

end PointerQuery
