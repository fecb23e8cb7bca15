import HackerTyper.Service.Loading

/-!
# Unknown identifiers

`selectSource` answers `false`, and the commands answer `unknown-source`, when the lookup finds
no source. The lookup falls back to the first entry of the catalog, so this never happens: an
identifier that no entry carries selects the first entry.

## Main definitions

* `RejectsUnknown`: an unknown identifier is rejected without effect.

## Main results

* `rejectsUnknown_iff`: only the identifiers that are known are treated as they should be.
-/

namespace Service

open Js HackerTyperModel SourceCatalog

/-- An identifier that no entry carries is rejected without effect, and the commands answer
`unknown-source` exactly for such an identifier. -/
def RejectsUnknown (env : Env) (st : State) (id screenName : JsString)
    (signals : List FileSignal) : Prop :=
  (id ∉ sources.map Source.id → selectSource (.str id) signals st = (.ok false, st)) ∧
    ((ipcSelect id signals st).1 = .ok (js "unknown-source") ↔ id ∉ sources.map Source.id) ∧
    ((ipcLaunch env id screenName signals st).1 = .ok (js "unknown-source") ↔
      id ∉ sources.map Source.id)

/-- Selecting a string succeeds. -/
theorem selectSource_str_fst (id : JsString) (signals : List FileSignal) (st : State) :
    (selectSource (.str id) signals st).1 = .ok true := by
  rcases selectSource_spec (.str id) signals st with ⟨-, h⟩ | ⟨hid, -⟩
  · exact h
  · exact absurd (fun _ => Json.stringable_str id) hid

/-- The select command always answers that it has selected. -/
theorem ipcSelect_fst (id : JsString) (signals : List FileSignal) (st : State) :
    (ipcSelect id signals st).1 = .ok (js "ok") := by
  have hselect := selectSource_str_fst id signals st
  rw [ipcSelect]
  split <;> simp_all

/-- The launch command never answers that the source is unknown. -/
theorem ipcLaunch_fst_ne (env : Env) (id screenName : JsString) (signals : List FileSignal)
    (st : State) : (ipcLaunch env id screenName signals st).1 ≠ .ok (js "unknown-source") := by
  have hlaunched : ∀ answer : Bool, (Result.ok (if answer then js "ok" else js "unavailable")) ≠
      .ok (js "unknown-source") := by decide
  have hselect := selectSource_str_fst id signals st
  rw [ipcLaunch]
  by_cases hid : id ≠ []
  · rw [if_pos hid]
    cases hrun : selectSource (.str id) signals st with
    | mk answer st' =>
      rw [hrun] at hselect
      rw [show answer = .ok true from hselect]
      exact hlaunched _
  · rw [if_neg hid]
    exact hlaunched _

/-- The rejection of unknown identifiers works for the known ones only. -/
theorem rejectsUnknown_iff (env : Env) (st : State) (id screenName : JsString)
    (signals : List FileSignal) :
    RejectsUnknown env st id screenName signals ↔ id ∈ sources.map Source.id := by
  constructor
  · rintro ⟨hselect, -, -⟩
    by_contra hid
    -- the selection answers `true` for every string
    have hfst := selectSource_str_fst id signals st
    rw [hselect hid] at hfst
    cases hfst
  · intro hid
    refine ⟨fun h => absurd hid h, ?_, ?_⟩
    · -- for a known identifier neither command answers `unknown-source`
      rw [ipcSelect_fst]
      exact iff_of_false (by decide) (fun h => h hid)
    · exact iff_of_false (ipcLaunch_fst_ne env id screenName signals st) (fun h => h hid)

/-- A mistyped identifier blanks the text that was loaded and selects the first source. -/
theorem not_rejectsUnknown_mistyped :
    ∃ st, (machine ⟨none, some ⟨js "hackertyper", some (js "/p")⟩, []⟩).Reachable st ∧
      st = ⟨js "packet-engine", js "fn main() \x7b\x7d", []⟩ ∧
      js "packet-engin" ∉ sources.map Source.id ∧
      selectSource (.str (js "packet-engin")) [] st = (.ok true, initial) ∧
      ¬RejectsUnknown ⟨none, some ⟨js "hackertyper", some (js "/p")⟩, []⟩ st
        (js "packet-engin") [] [] := by
  let env : Env := ⟨none, some ⟨js "hackertyper", some (js "/p")⟩, []⟩
  let select : Event := .select (.str (js "packet-engine")) []
  let load : Event :=
    .signal (.loaded (js "/p/sources/packet-engine.rs") (js "fn main() \x7b\x7d"))
  have hselect := Machine.Reachable.step select (M := machine env) (.init rfl)
    fun _ h => absurd h (by simp)
  have hpath : Enabled env (step initial select) load := by
    change js "/p/sources/packet-engine.rs" = selectedSourcePath env (step initial select)
    decide +kernel
  have hunknown : js "packet-engin" ∉ sources.map Source.id := by decide +kernel
  refine ⟨_, .step load hselect hpath, by decide +kernel, hunknown, by decide +kernel, ?_⟩
  rintro ⟨hrejects, -, -⟩
  have hfst := congrArg Prod.fst (hrejects hunknown)
  rw [selectSource_str_fst] at hfst
  cases hfst

end Service
