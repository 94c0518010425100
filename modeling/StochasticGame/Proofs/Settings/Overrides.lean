import StochasticGame.Proofs.Json.Record
import StochasticGame.Settings.Reader

/-!
# StochasticGame.Proofs.Settings.Overrides

**Settings files override what they list, and nothing else.** The fields of the three records
are enumerated, with their names and the spellings of their values. A `Listing` is a choice of
them, in an order. A settings file that lists these fields with the values of some settings
gives the settings that have these values there and the defaults elsewhere. The file may have
spaces, escapes and further members wherever JSON allows them.

Each record is settled in the same way: its fields read their values (`Implements`), and
copying the listed fields one after the other gives the values on the listed fields.
-/

namespace StochasticGame

open Json

/-- Copying the listed fields one after the other overlays them, if the first of them can be
copied before the others are overlaid. -/
theorem foldl_copy_eq {ι σ : Type} {copy : ι → σ → σ} {overlay : σ → List ι → σ}
    (hnil : ∀ base, overlay base [] = base)
    (hcons : ∀ base i listed, overlay base (i :: listed) = overlay (copy i base) listed)
    (base : σ) (listed : List ι) :
    listed.foldl (fun d i => copy i d) base = overlay base listed := by
  induction listed generalizing base with
  | nil => exact (hnil base).symm
  | cons i listed ih => rw [List.foldl_cons, ih, hcons]

/-! ### Reduction passes -/

/-- The fields that choose reduction passes. -/
inductive PassField where
  | promoteSinks
  | pruneSinks
  | fuseNodes
  | deleteSelfLoops
  | correctProbabilities
  deriving DecidableEq

namespace PassField

/-- The fields in their order. -/
def all : List PassField :=
  [.promoteSinks, .pruneSinks, .fuseNodes, .deleteSelfLoops, .correctProbabilities]

/-- The name of a field in a settings file. -/
def name : PassField → String
  | .promoteSinks => "promote_sinks"
  | .pruneSinks => "prune_sinks"
  | .fuseNodes => "fuse_nodes"
  | .deleteSelfLoops => "delete_self_loops"
  | .correctProbabilities => "correct_probabilities"

/-- The value of a field. -/
def value (p : Passes) : PassField → Bool
  | .promoteSinks => p.promoteSinks
  | .pruneSinks => p.pruneSinks
  | .fuseNodes => p.fuseNodes
  | .deleteSelfLoops => p.deleteSelfLoops
  | .correctProbabilities => p.correctProbabilities

/-- Copy a field of the first passes to the second. -/
def copy (p : Passes) : PassField → Passes → Passes
  | .promoteSinks, q => { q with promoteSinks := p.promoteSinks }
  | .pruneSinks, q => { q with pruneSinks := p.pruneSinks }
  | .fuseNodes, q => { q with fuseNodes := p.fuseNodes }
  | .deleteSelfLoops, q => { q with deleteSelfLoops := p.deleteSelfLoops }
  | .correctProbabilities, q => { q with correctProbabilities := p.correctProbabilities }

end PassField

namespace Passes

/-- The spellings of a field's value. -/
def Spells (p : Passes) (i : PassField) : List Char → Prop := SpellsBool (i.value p)

/-- The values of `p` on the listed fields, and those of `base` elsewhere. -/
def overlay (p base : Passes) (listed : List PassField) : Passes where
  promoteSinks := if .promoteSinks ∈ listed then p.promoteSinks else base.promoteSinks
  pruneSinks := if .pruneSinks ∈ listed then p.pruneSinks else base.pruneSinks
  fuseNodes := if .fuseNodes ∈ listed then p.fuseNodes else base.fuseNodes
  deleteSelfLoops := if .deleteSelfLoops ∈ listed then p.deleteSelfLoops else base.deleteSelfLoops
  correctProbabilities :=
    if .correctProbabilities ∈ listed then p.correctProbabilities else base.correctProbabilities

theorem foldl_copy (p base : Passes) (listed : List PassField) :
    listed.foldl (fun q i => i.copy p q) base = p.overlay base listed := by
  refine foldl_copy_eq (fun _ => rfl) (fun base i listed => ?_) base listed
  cases i <;> simp [overlay, PassField.copy]

theorem implements (p : Passes) :
    Implements Passes.fields PassField.name p.Spells (PassField.copy p) := by
  have hall : ∀ i, i ∈ PassField.all := fun i => by cases i <;> decide
  refine implements_of_forall₂ hall (by decide) ?_
  refine .cons ⟨rfl, (readsValue_bool _).map _⟩ ?_
  refine .cons ⟨rfl, (readsValue_bool _).map _⟩ ?_
  refine .cons ⟨rfl, (readsValue_bool _).map _⟩ ?_
  refine .cons ⟨rfl, (readsValue_bool _).map _⟩ ?_
  exact .cons ⟨rfl, (readsValue_bool _).map _⟩ .nil

theorem exists_spelling (p : Passes) (i : PassField) : ∃ cs, p.Spells i cs := by
  rw [Spells]
  cases i.value p
  · exact ⟨_, .isFalse⟩
  · exact ⟨_, .isTrue⟩

theorem overlay_eq_self {p base : Passes} {listed : List PassField} (h : ∀ i, i ∈ listed) :
    p.overlay base listed = p := by
  simp only [overlay, h, if_true]

end Passes

/-! ### The solver -/

/-- The fields that set up the solver. -/
inductive SolverField where
  | checkInterval
  | timeoutSecs
  | denominatorCap
  | approximant
  | tableMaxDenominator
  deriving DecidableEq

namespace SolverField

/-- The fields in their order. -/
def all : List SolverField :=
  [.checkInterval, .timeoutSecs, .denominatorCap, .approximant, .tableMaxDenominator]

/-- The name of a field in a settings file. -/
def name : SolverField → String
  | .checkInterval => "check_interval"
  | .timeoutSecs => "timeout_secs"
  | .denominatorCap => "denominator_cap"
  | .approximant => "approximant"
  | .tableMaxDenominator => "table_max_denominator"

/-- Copy a field of the first settings to the second. -/
def copy (s : SolverSettings) : SolverField → SolverSettings → SolverSettings
  | .checkInterval, t => { t with checkInterval := s.checkInterval }
  | .timeoutSecs, t => { t with timeoutSecs := s.timeoutSecs }
  | .denominatorCap, t => { t with denominatorCap := s.denominatorCap }
  | .approximant, t => { t with approximant := s.approximant }
  | .tableMaxDenominator, t => { t with tableMaxDenominator := s.tableMaxDenominator }

end SolverField

/-- The name of a search in a settings file. -/
def ApproximantKind.name : ApproximantKind → String
  | .sternBrocot => "stern_brocot"
  | .table => "table"

theorem ApproximantKind.lookup_name (kind : ApproximantKind) :
    variants.lookup kind.name = some kind := by
  cases kind <;> rfl

theorem Settings.readsValue_word (n : UInt64) :
    ReadsValue Settings.word (SpellsNatural n.toNat) n := by
  have h := (readsValue_natural "u64" (Nat.le_refl 64) n.toNat_lt).map Nat.toUInt64
  rwa [Nat.toUInt64_eq, UInt64.ofNat_toNat] at h

namespace SolverSettings

/-- The spellings of a field's value. -/
def Spells (s : SolverSettings) : SolverField → List Char → Prop
  | .checkInterval => SpellsNatural s.checkInterval.toNat
  | .timeoutSecs => SpellsNatural s.timeoutSecs.toNat
  | .denominatorCap => SpellsNatural s.denominatorCap.toNat
  | .approximant => SpellsVariant s.approximant.name
  | .tableMaxDenominator => SpellsNatural s.tableMaxDenominator.toNat

/-- The values of `s` on the listed fields, and those of `base` elsewhere. -/
def overlay (s base : SolverSettings) (listed : List SolverField) : SolverSettings where
  checkInterval := if .checkInterval ∈ listed then s.checkInterval else base.checkInterval
  timeoutSecs := if .timeoutSecs ∈ listed then s.timeoutSecs else base.timeoutSecs
  denominatorCap := if .denominatorCap ∈ listed then s.denominatorCap else base.denominatorCap
  approximant := if .approximant ∈ listed then s.approximant else base.approximant
  tableMaxDenominator :=
    if .tableMaxDenominator ∈ listed then s.tableMaxDenominator else base.tableMaxDenominator

theorem foldl_copy (s base : SolverSettings) (listed : List SolverField) :
    listed.foldl (fun t i => i.copy s t) base = s.overlay base listed := by
  refine foldl_copy_eq (fun _ => rfl) (fun base i listed => ?_) base listed
  cases i <;> simp [overlay, SolverField.copy]

theorem implements (s : SolverSettings) :
    Implements SolverSettings.fields SolverField.name s.Spells (SolverField.copy s) := by
  have hall : ∀ i, i ∈ SolverField.all := fun i => by cases i <;> decide
  have hinterval : ReadsValue
      (do let n ← Reader.natural 32 "u32"
          pure fun t : SolverSettings => { t with checkInterval := n.toUInt32 })
      (s.Spells .checkInterval) (SolverField.copy s .checkInterval) := by
    have h := (readsValue_natural "u32" (by decide) s.checkInterval.toNat_lt).map
      fun n (t : SolverSettings) => { t with checkInterval := n.toUInt32 }
    rwa [Nat.toUInt32_eq, UInt32.ofNat_toNat] at h
  refine implements_of_forall₂ hall (by decide) ?_
  refine .cons ⟨rfl, hinterval⟩ ?_
  refine .cons ⟨rfl, (Settings.readsValue_word _).map _⟩ ?_
  refine .cons ⟨rfl, (Settings.readsValue_word _).map _⟩ ?_
  refine .cons ⟨rfl, (readsValue_variant s.approximant.lookup_name).map _⟩ ?_
  exact .cons ⟨rfl, (Settings.readsValue_word _).map _⟩ .nil

theorem exists_spelling (s : SolverSettings) (i : SolverField) : ∃ cs, s.Spells i cs := by
  cases i with
  | approximant =>
    refine ⟨_, .string (spells_self ?_)⟩
    cases s.approximant <;> decide
  | _ => exact ⟨_, spellsNatural_toDigits _⟩

theorem overlay_eq_self {s base : SolverSettings} {listed : List SolverField}
    (h : ∀ i, i ∈ listed) : s.overlay base listed = s := by
  simp only [overlay, h, if_true]

end SolverSettings

/-! ### Whole settings -/

/-- The two records. -/
inductive SettingsField where
  | reduce
  | solver
  deriving DecidableEq

namespace SettingsField

/-- The records in their order. -/
def all : List SettingsField := [.reduce, .solver]

/-- The name of a record in a settings file. -/
def name : SettingsField → String
  | .reduce => "reduce"
  | .solver => "solver"

/-- Copy a record of the first settings to the second. -/
def copy (c : Settings) : SettingsField → Settings → Settings
  | .reduce, d => { d with reduce := c.reduce }
  | .solver, d => { d with solver := c.solver }

end SettingsField

/-- A choice of fields of the three records, each in the order in which they are listed. -/
structure Listing where
  /-- The records that are listed. -/
  records : List SettingsField
  /-- The passes that are listed in their record. -/
  passes : List PassField
  /-- The fields of the solver that are listed in their record. -/
  solver : List SolverField
  /-- No record is listed twice. -/
  nodup_records : records.Nodup
  /-- No pass is listed twice. -/
  nodup_passes : passes.Nodup
  /-- No field of the solver is listed twice. -/
  nodup_solver : solver.Nodup

/-- Every field of every record is listed. -/
def Listing.IsFull (l : Listing) : Prop :=
  (∀ i, i ∈ l.records) ∧ (∀ i, i ∈ l.passes) ∧ ∀ i, i ∈ l.solver

namespace Settings

/-- The texts of a record that lists the chosen fields. -/
def Spells (c : Settings) (l : Listing) : SettingsField → List Char → Prop
  | .reduce => RecordText PassField.name c.reduce.Spells l.passes
  | .solver => RecordText SolverField.name c.solver.Spells l.solver

/-- The text is a settings file that lists the chosen fields with the values of `c`. -/
def ListedBy (c : Settings) (l : Listing) (text : String) : Prop :=
  ∃ before body after, text.toList = before ++ (body ++ after) ∧ IsSpaces before ∧
    IsSpaces after ∧ RecordText SettingsField.name (c.Spells l) l.records body

/-- The values of `c` on the chosen fields, and the defaults elsewhere. -/
def overlay (c : Settings) (l : Listing) : Settings where
  reduce := if .reduce ∈ l.records then c.reduce.overlay {} l.passes else {}
  solver := if .solver ∈ l.records then c.solver.overlay {} l.solver else {}

/-- The settings that both records of such a file are read as, if it has both. -/
def overlayBoth (c : Settings) (l : Listing) : Settings where
  reduce := c.reduce.overlay {} l.passes
  solver := c.solver.overlay {} l.solver

/-- The records of `c` where they are listed, and those of `base` elsewhere. -/
def pick (c base : Settings) (listed : List SettingsField) : Settings where
  reduce := if .reduce ∈ listed then c.reduce else base.reduce
  solver := if .solver ∈ listed then c.solver else base.solver

theorem foldl_copy (c base : Settings) (listed : List SettingsField) :
    listed.foldl (fun d i => i.copy c d) base = c.pick base listed := by
  refine foldl_copy_eq (fun _ => rfl) (fun base i listed => ?_) base listed
  cases i <;> simp [pick, SettingsField.copy]

theorem implements (c : Settings) (l : Listing) :
    Implements Settings.fields SettingsField.name (c.Spells l)
      (SettingsField.copy (c.overlayBoth l)) := by
  have hall : ∀ i, i ∈ SettingsField.all := fun i => by cases i <;> decide
  have hreduce : ReadsValue (Reader.record "ReduceConfig" Passes.fields {}) (c.Spells l .reduce)
      (c.reduce.overlay {} l.passes) := by
    rw [← Passes.foldl_copy]
    exact fun _ _ _ h hs _ => h.reads c.reduce.implements l.nodup_passes hs
  have hsolver : ReadsValue (Reader.record "SolverConfig" SolverSettings.fields {})
      (c.Spells l .solver) (c.solver.overlay {} l.solver) := by
    rw [← SolverSettings.foldl_copy]
    exact fun _ _ _ h hs _ => h.reads c.solver.implements l.nodup_solver hs
  refine implements_of_forall₂ hall (by decide) ?_
  exact .cons ⟨rfl, hreduce.map _⟩ (.cons ⟨rfl, hsolver.map _⟩ .nil)

theorem ofJson_of_listedBy {c : Settings} {l : Listing} {text : String}
    (h : c.ListedBy l text) : ofJson text = .ok (c.overlay l) := by
  obtain ⟨before, body, after, htext, hbefore, hafter, hbody⟩ := h
  have hread : Reads (Reader.record "Config" Settings.fields {}) text.toList (c.overlay l)
      after := by
    have hfold : l.records.foldl (fun d i => i.copy (c.overlayBoth l) d) {} = c.overlay l :=
      foldl_copy (c.overlayBoth l) {} l.records
    rw [htext, ← hfold]
    exact hbody.reads (c.implements l) l.nodup_records hbefore
  exact readAll_eq_ok hread hafter

/-- Every choice of fields can be listed, whatever their values are. -/
theorem exists_listedBy (c : Settings) (l : Listing) : ∃ text, c.ListedBy l text := by
  have hspells : ∀ i, ∃ cs, c.Spells l i cs := by
    intro i
    cases i with
    | reduce =>
      exact exists_recordText (fun i => by cases i <;> decide) c.reduce.exists_spelling l.passes
    | solver =>
      exact exists_recordText (fun i => by cases i <;> decide) c.solver.exists_spelling l.solver
  obtain ⟨body, hbody⟩ : ∃ body, RecordText SettingsField.name (c.Spells l) l.records body :=
    exists_recordText (fun i => by cases i <;> decide) hspells l.records
  exact ⟨String.ofList body, [], body, [], by simp, isSpaces_nil, isSpaces_nil, hbody⟩

theorem overlay_eq_self {c : Settings} {l : Listing} (h : l.IsFull) : c.overlay l = c := by
  rw [overlay, if_pos (h.1 _), if_pos (h.1 _), Passes.overlay_eq_self h.2.1,
    SolverSettings.overlay_eq_self h.2.2]

/-- **A settings file overrides exactly what it lists.** Every choice of fields can be listed
with the values of any settings. Every file that does so is read: in whatever order the fields
stand, with whatever spaces and further members, the result has the values on the listed fields
and the defaults elsewhere. If all fields are listed, the result is the settings themselves. -/
theorem ofJson_overrides_listed (c : Settings) (l : Listing) :
    (∃ text, c.ListedBy l text) ∧
      (∀ text, c.ListedBy l text → ofJson text = .ok (c.overlay l)) ∧
        (l.IsFull → ∀ text, c.ListedBy l text → ofJson text = .ok c) := by
  refine ⟨c.exists_listedBy l, fun text => ofJson_of_listedBy, fun hfull text htext => ?_⟩
  rw [ofJson_of_listedBy htext, overlay_eq_self hfull]

/-- Settings that differ from the defaults everywhere, with the largest numbers of both widths. -/
def contrary : Settings where
  reduce := ⟨false, false, false, false, false⟩
  solver := ⟨4294967295, 18446744073709551615, 0, .table, 18446744073709551615⟩

/-- Some of the fields, out of order. -/
def scattered : Listing where
  records := [.solver, .reduce]
  passes := [.fuseNodes]
  solver := [.timeoutSecs, .approximant, .checkInterval]
  nodup_records := by decide
  nodup_passes := by decide
  nodup_solver := by decide

/-- The members of the record for the solver. -/
def scatteredSolver : List Member :=
  [Member.plain [' '] "timeout_secs" (Nat.toDigits 10 18446744073709551615),
    Member.plain [' '] "approximant"
      ('{' :: ((Member.plain [' '] "table" ['n', 'u', 'l', 'l']).text ++ ['}'])),
    Member.plain [' '] "check_interval" (Nat.toDigits 10 4294967295)]

/-- The members of the record for the passes. -/
def scatteredPasses : List Member :=
  [Member.plain [' '] "fuse_nodes" ['f', 'a', 'l', 's', 'e'],
    Member.plain [' '] ""
      (['-'] ++ (Nat.toDigits 10 1 ++ ('.' :: Nat.toDigits 10 5 ++ 'e' :: ([] ++ ['3']))))]

/-- The members of the file. -/
def scatteredMembers : List Member :=
  [Member.plain [' '] "solver" ('{' :: (commaSeparated (scatteredSolver.map Member.text) ++ ['}'])),
    Member.plain [' '] "note" ('[' :: (commaSeparated [[' ', '{', '}']] ++ [']'])),
    Member.plain [' '] "r\\u0065duce"
      ('{' :: (commaSeparated (scatteredPasses.map Member.text) ++ ['}']))]

/-- A file that lists them, with two further members:
```
 { "solver": { "timeout_secs": 18446744073709551615, "approximant": { "table": null},
   "check_interval": 4294967295}, "note": [ {}], "r\u0065duce": { "fuse_nodes": false, "": -1.5e3}}
``` -/
def scatteredText : String :=
  String.ofList
    ([' '] ++ ('{' :: (commaSeparated (scatteredMembers.map Member.text) ++ ['}']) ++ ['\n']))

theorem contrary_listedBy : contrary.ListedBy scattered scatteredText := by
  have hsolver : List.Forall₂ (Says SolverField.name contrary.solver.Spells) scatteredSolver
      [some .timeoutSecs, some .approximant, some .checkInterval] := by
    refine .cons (.field (spells_self (by decide)) (spellsNatural_toDigits 18446744073709551615)) ?_
    refine .cons (.field (spells_self (by decide)) ?_) ?_
    · exact .object (by decide) (spells_self (by decide)) rfl
    · exact .cons (.field (spells_self (by decide)) (spellsNatural_toDigits 4294967295)) .nil
  have hpasses : List.Forall₂ (Says PassField.name contrary.reduce.Spells) scatteredPasses
      [some .fuseNodes, none] := by
    have hnumber : IsNumber
        (['-'] ++ (Nat.toDigits 10 1 ++ ('.' :: Nat.toDigits 10 5 ++ 'e' :: ([] ++ ['3'])))) :=
      .parts (Or.inr rfl) (spellsNatural_toDigits 1).1 (.point (Text.isDigits_toDigits 5))
        (.letter (Or.inl rfl) .absent (Text.isDigits_toDigits 3))
    refine .cons (.field (spells_self (by decide)) .isFalse) ?_
    refine .cons (.other (spells_self (by decide)) ?_ (.number hnumber)) .nil
    intro i
    cases i <;> decide
  have hnote : IsValue ('[' :: (commaSeparated [[' ', '{', '}']] ++ [']'])) := by
    have helement : ∀ e ∈ [(⟨[' '], ['{', '}'], []⟩ : Element)], e.Spaced ∧ IsValue e.value := by
      intro e he
      rw [List.mem_singleton.1 he]
      exact ⟨by decide, .emptyObject isSpaces_nil⟩
    exact .array (List.cons_ne_nil _ _) (fun e he => (helement e he).1)
      fun e he => (helement e he).2
  have hreduce : Json.Spells "r\\u0065duce".toList (SettingsField.name .reduce).toList := by
    have hzero : IsHex '0' 0 := ⟨by decide, Or.inl rfl⟩
    have hsix : IsHex '6' 6 := ⟨by decide, Or.inl rfl⟩
    have hfive : IsHex '5' 5 := ⟨by decide, Or.inl rfl⟩
    have hunit : SpellsUnit ['0', '0', '6', '5'] 'e'.toNat := .digits hzero hzero hsix hfive
    exact .plain (by decide) (.unit hunit (spells_self (by decide)))
  have hmembers : List.Forall₂ (Says SettingsField.name (contrary.Spells scattered))
      scatteredMembers [some .solver, none, some .reduce] := by
    refine .cons (.field (spells_self (by decide)) ?_) ?_
    · exact .members (by decide) (by decide) hsolver
    refine .cons (.other (spells_self (by decide)) ?_ hnote) ?_
    · intro i
      cases i <;> decide
    refine .cons (.field hreduce ?_) .nil
    exact .members (by decide) (by decide) hpasses
  exact ⟨[' '], _, ['\n'], String.toList_ofList, by decide, by decide,
    .members (by decide) (by decide) hmembers⟩

theorem contrary_overrides_listed :
    contrary.ListedBy scattered scatteredText ∧
      ofJson scatteredText =
        .ok { reduce := { fuseNodes := false },
              solver := { checkInterval := 4294967295, timeoutSecs := 18446744073709551615,
                          approximant := .table } } :=
  ⟨contrary_listedBy, (ofJson_overrides_listed contrary scattered).2.1 _ contrary_listedBy⟩

end Settings

end StochasticGame
