import Fairway.Config
import Fairway.Proofs.Text.Encoding
import Fairway.Proofs.Toml.Documents

namespace Fairway

namespace Policy

theorem ofLabel?_label (p : Policy) : ofLabel? p.label = some p := by
  cases p <;> decide

end Policy

namespace Config

/-- Asked for the names of its entries, a section gives the value of each. -/
theorem settingsOf?_section {sections : List Toml.Section} (distinct : (sections.map Toml.Section.name).Nodup)
    {s : Toml.Section} (member : s ∈ sections) :
    settingsOf? (s.entries.map Toml.Entry.name) (sections.map Toml.Section.entry) s.name =
      some (s.entries.map fun e => some e.value.toml) := by
  have found : (sections.map Toml.Section.entry).lookup s.name = some (Toml.Section.tableOf s.entries) :=
    Toml.lookup_of_mem (by simpa [Toml.Section.entry, Function.comp_def] using distinct) (List.mem_map_of_mem member)
  have given : ∀ e ∈ s.entries,
      (s.entries.map fun e => (e.name, e.value.toml)).lookup e.name = some e.value.toml :=
    fun e listed => Toml.lookup_of_mem (by simpa [Function.comp_def] using s.distinct)
      (List.mem_map_of_mem (f := fun e : Toml.Entry => (e.name, e.value.toml)) listed)
  rw [settingsOf?, found, Option.getD_some, Toml.Section.tableOf, settings, List.map_map]
  exact congrArg some (List.map_congr_left given)

section Written

variable (c : Config) (fits : c.eventBuffer < Nat.pow 2 63)

/-- The sections of a configuration, with every setting in its place. -/
def sections : List Toml.Section := [
  { name := "store"
    entries := [
      { name := "path", value := .text c.storePath },
      { name := "event_buffer", value := .count c.eventBuffer fits }] },
  { name := "registry"
    entries := [
      { name := "prefix", value := .text c.registryRoot },
      { name := "lease_ttl", value := .text c.leaseTtl }] },
  { name := "resolver"
    entries := [
      { name := "scheme", value := .text c.scheme },
      { name := "timeout", value := .text c.timeout }] },
  { name := "failover"
    entries := [{ name := "prefix", value := .text c.failoverRoot }] },
  { name := "balancer"
    entries := [{ name := "policy", value := .text c.policy.label }] }]

theorem distinct_sections : ((c.sections fits).map Toml.Section.name).Nodup := by
  simp [sections]

theorem toToml?_eq : c.toToml? = some (String.ofList (Toml.Section.writeAll (c.sections fits))) := by
  rw [toToml?, if_pos fits]
  simp [sections, Toml.Section.writeAll, Toml.Section.write, Toml.Entry.write, Toml.Setting.write, header, textLine]

theorem ofEntries?_sections : ofEntries? ((c.sections fits).map Toml.Section.entry) = some c := by
  have found : ∀ s ∈ c.sections fits, settingsOf? (s.entries.map Toml.Entry.name)
      ((c.sections fits).map Toml.Section.entry) s.name = some (s.entries.map fun e => some e.value.toml) :=
    fun s member => settingsOf?_section (c.distinct_sections fits) member
  -- With a value for every setting, no default is taken.
  generalize (c.sections fits).map Toml.Section.entry = document at found ⊢
  obtain ⟨store, registry, resolver, failover, balancer⟩ := by simpa [sections] using found
  simp [ofEntries?, store, registry, resolver, failover, balancer, Toml.Setting.toml, textOr, countOr, policyOr,
    Policy.ofToml?, Policy.ofLabel?_label]

theorem ofToml?_sections : ofToml? (String.ofList (Toml.Section.writeAll (c.sections fits))) = some c := by
  rw [ofToml?, Toml.parse_write (c.distinct_sections fits), Option.bind_some, ofEntries?_sections]

end Written

section Survival

variable {c d : Config} {text : String}

theorem isSome_toToml?_iff : c.toToml?.isSome ↔ c.eventBuffer ≤ Nat.pow 2 63 - 1 := by
  rw [toToml?, Nat.pow_eq]
  split
  case isTrue fits => simp; omega
  case isFalse => simp; omega

/-- Every setting that is written is the one that is read. -/
theorem ofToml?_written (written : c.toToml? = some text) : ofToml? text = some c := by
  by_cases fits : c.eventBuffer < Nat.pow 2 63
  case pos =>
    rw [toToml?_eq c fits, Option.some.injEq] at written
    rw [← written, ofToml?_sections]
  case neg =>
    rw [toToml?, if_neg fits] at written
    cases written

/-- Whether both durations of a configuration can be read. -/
def Timed (c : Config) : Prop :=
  (∃ timeout, c.timeoutDuration = .ok timeout) ∧ ∃ lease, c.leaseDuration = .ok lease

theorem ofFile_written (written : c.toToml? = some text) :
    ofFile (some (Utf8.encode text)) = .ok d ↔ d = c ∧ c.Timed := by
  rw [ofFile, Option.bind_some, Utf8.decode?_encode]
  dsimp only
  rw [ofToml?_written written]
  dsimp only [Timed]
  cases c.timeoutDuration <;> cases c.leaseDuration <;> simp [eq_comm]

/-- What becomes of a configuration that is written out and read again. -/
structure Survives (c : Config) : Prop where
  /-- It is written unless its event buffer is beyond the integers of TOML. -/
  written : c.toToml?.isSome ↔ c.eventBuffer ≤ Nat.pow 2 63 - 1
  /-- What is written says the same. -/
  read : ∀ text, c.toToml? = some text → ofToml? text = some c
  /-- A file of it gives nothing else, and gives it if both durations can be read. -/
  file : ∀ text, c.toToml? = some text → ∀ d, ofFile (some (Utf8.encode text)) = .ok d ↔ d = c ∧ c.Timed

theorem survives (c : Config) : c.Survives where
  written := isSome_toToml?_iff
  read _ := ofToml?_written
  file _ written _ := ofFile_written written

end Survival

end Config

end Fairway
