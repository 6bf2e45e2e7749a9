import RapidDb.Manager.TableManager

/-!
# What has been removed is gone

Each entry of the fast cache is an entry of the map under the same name. A call that reads a slot of
the cache therefore returns what the map has at that moment, as long as the slot stays the same
between its reads.
-/

namespace RapidDb

universe u

open Transition

namespace ResManager

variable {α : Type u} {kind : ManagerKind} {hash : α → ℕ}
  {manager manager' : ResManager α} {finder : Finder α} {item k time : ℕ} {name : α}

/-- What holds of a call at each of its stages. -/
def StageSound (kind : ManagerKind) (hash : α → ℕ) (manager : ResManager α) (finder : Finder α) :
    Prop :=
  match finder.stage with
  | .test _ _ | .lock _ => True
  | .compare i _ => manager.fastCache (bucket kind hash finder.name) i ≠ none
  | .visit i | .take i => ∃ item, manager.fastCache (bucket kind hash finder.name) i = some item ∧
      manager.names[item]? = some finder.name
  | .returned (some item) => manager.names[item]? = some finder.name ∧ item ∉ finder.discarded ∧
      ∀ old, finder.present = some old → old ∉ manager.discard → item = old
  | .returned none => ∀ old, finder.present = some old → old ∈ manager.discard
  | .crashed => False

structure FinderSound (kind : ManagerKind) (hash : α → ℕ) (manager : ResManager α)
    (finder : Finder α) : Prop where
  discarded : ∀ item ∈ finder.discarded, item ∈ manager.discard
  present : ∀ item, finder.present = some item →
    manager.mapRes finder.name = some item ∨ item ∈ manager.discard
  stage : StageSound kind hash manager finder

structure Sound (kind : ManagerKind) (hash : α → ℕ) (manager : ResManager α) : Prop where
  cached : ∀ b i item, manager.fastCache b i = some item → ∃ name,
    manager.names[item]? = some name ∧ manager.mapRes name = some item ∧ bucket kind hash name = b
  mapped : ∀ name item, manager.mapRes name = some item →
    manager.names[item]? = some name ∧ item ∉ manager.discard
  discard : ∀ item ∈ manager.discard, item < manager.names.length
  finders : ∀ finder ∈ manager.finders, FinderSound kind hash manager finder

/-- A call is not disturbed: the slot that it reads stays, and nothing comes back. -/
theorem FinderSound.frame (sound : FinderSound kind hash manager finder)
    (names : ∀ (item : ℕ) (name : α), manager.names[item]? = some name →
      manager'.names[item]? = some name)
    (discard : ∀ item ∈ manager.discard, item ∈ manager'.discard)
    (mapRes : ∀ item, manager.mapRes finder.name = some item →
      manager'.mapRes finder.name = some item ∨ item ∈ manager'.discard)
    (slots : ∀ i, reading finder = some i →
      manager'.fastCache (bucket kind hash finder.name) i =
        manager.fastCache (bucket kind hash finder.name) i) :
    FinderSound kind hash manager' finder := by
  refine ⟨fun item mem => discard item (sound.discarded item mem), fun item found => ?_, ?_⟩
  · rcases sound.present item found with found | gone
    · exact mapRes item found
    · exact Or.inr (discard item gone)
  · have stage := sound.stage
    unfold StageSound at stage ⊢
    unfold reading at slots
    split at stage
    · trivial
    · trivial
    · rename_i i epos same
      rw [slots i (by rw [same])]
      exact stage
    · rename_i i same
      rcases stage with ⟨item, cached, named⟩
      rw [slots i (by rw [same])]
      exact ⟨item, cached, names _ _ named⟩
    · rename_i i same
      rcases stage with ⟨item, cached, named⟩
      rw [slots i (by rw [same])]
      exact ⟨item, cached, names _ _ named⟩
    · rcases stage with ⟨named, notGone, resolved⟩
      exact ⟨names _ _ named, notGone,
        fun old found left => resolved old found fun gone => left (discard old gone)⟩
    · exact fun old found => discard old (stage old found)
    · exact stage

theorem setSlot_of_ne (manager : ResManager α) {b b' : ℕ} {i j : Fin 4} {item : Option ℕ}
    (differ : b = b' → i ≠ j) :
      (manager.setSlot b i item).fastCache b' j = manager.fastCache b' j := by
  unfold setSlot
  by_cases here : b' = b
  · subst here
    simp [Ne.symm (differ rfl)]
  · simp [here]

theorem setSlot_self (manager : ResManager α) (b : ℕ) (i : Fin 4) (item : Option ℕ) :
    (manager.setSlot b i item).fastCache b i = item := by
  simp [setSlot]

theorem slots_of_unread {b : ℕ} {i : Fin 4} {item : Option ℕ}
    (unread : manager.Unread kind hash b i) (mem : finder ∈ manager.finders) (j : Fin 4)
    (reads : reading finder = some j) :
    (manager.setSlot b i item).fastCache (bucket kind hash finder.name) j =
      manager.fastCache (bucket kind hash finder.name) j := by
  apply setSlot_of_ne
  rintro same rfl
  exact unread finder mem same.symm reads

theorem getElem?_append_name {names : List α} (mem : names[item]? = some name) (new : α) :
    (names ++ [new])[item]? = some name := by
  rcases List.getElem?_eq_some_iff.mp mem with ⟨less, _⟩
  rw [List.getElem?_append_left less]
  exact mem

theorem Sound.item_lt (sound : Sound kind hash manager) (found : manager.mapRes name = some item) :
    item < manager.names.length :=
  (List.getElem?_eq_some_iff.mp (sound.mapped name item found).1).1

theorem clearSlot_frame (manager : ResManager α) (b item : ℕ) :
    (manager.clearSlot b item).names = manager.names ∧
      (manager.clearSlot b item).finders = manager.finders := by
  unfold clearSlot
  split <;> exact ⟨rfl, rfl⟩

theorem clearSlot_cached {b : ℕ} (once : ∀ i j, manager.fastCache b i = some item →
      manager.fastCache b j = some item → i = j)
    (elsewhere : ∀ b' i, manager.fastCache b' i = some item → b' = b) {b' : ℕ} {i : Fin 4}
    {other : ℕ} (cached : (manager.clearSlot b item).fastCache b' i = some other) :
    manager.fastCache b' i = some other ∧ other ≠ item := by
  unfold clearSlot at cached
  cases result : manager.clearPos b item with
  | none =>
      simp only [result] at cached
      refine ⟨cached, ?_⟩
      rintro rfl
      have differ := List.find?_eq_none.mp result i ((by decide : ∀ i : Fin 4, i ∈ [0, 1, 2, 3]) i)
      rw [elsewhere b' i cached] at cached
      simp [cached] at differ
  | some pos =>
      have held : manager.fastCache b pos = some item := by simpa using List.find?_some result
      simp only [result] at cached
      by_cases here : b = b' ∧ pos = i
      · rcases here with ⟨rfl, rfl⟩
        rw [setSlot_self] at cached
        cases cached
      · rw [setSlot_of_ne manager fun same => fun equal => here ⟨same, equal⟩] at cached
        refine ⟨cached, ?_⟩
        rintro rfl
        have home := elsewhere b' i cached
        subst home
        exact here ⟨rfl, once pos i held cached⟩

theorem clearSlot_unread {b : ℕ} (unread : ∀ i, manager.fastCache b i = some item →
      manager.Unread kind hash b i) (mem : finder ∈ manager.finders) (i : Fin 4)
    (reads : reading finder = some i) :
    (manager.clearSlot b item).fastCache (bucket kind hash finder.name) i =
      manager.fastCache (bucket kind hash finder.name) i := by
  unfold clearSlot
  cases result : manager.clearPos b item with
  | none => rfl
  | some pos =>
      have held : manager.fastCache b pos = some item := by simpa using List.find?_some result
      exact slots_of_unread (unread pos held) mem i reads

/-! ## Calls -/

theorem Sound.setFinder (sound : Sound kind hash manager)
    (found : manager.finders[k]? = some finder)
    {stage : FindStage} (sound' : StageSound kind hash manager { finder with stage := stage }) :
    Sound kind hash (manager.setFinder k finder stage) := by
  have old := sound.finders finder (List.mem_of_getElem? found)
  refine { sound with finders := fun other mem => ?_ }
  rcases List.mem_or_eq_of_mem_set mem with mem | rfl
  · exact (sound.finders other mem).frame (fun _ _ named => named) (fun _ mem => mem)
      (fun _ found => Or.inl found) fun _ _ => rfl
  · exact ⟨old.discarded, old.present, sound'⟩

theorem stageSound_afterSlot (finder : Finder α) (i : Fin 4) (epos : Option (Fin 4)) :
    StageSound kind hash manager { finder with stage := afterSlot i epos } := by
  unfold afterSlot
  split <;> exact trivial

theorem Sound.returned (sound : Sound kind hash manager)
    (mem : finder ∈ manager.finders) (found : manager.mapRes finder.name = some item) :
    StageSound kind hash manager { finder with stage := .returned (some item) } := by
  have old := sound.finders finder mem
  rcases sound.mapped finder.name item found with ⟨named, left⟩
  refine ⟨named, fun gone => left (old.discarded item gone), fun other present notGone => ?_⟩
  rcases old.present other present with here | gone
  · rw [found] at here
    exact Option.some.inj here
  · exact absurd gone notGone

theorem Sound.setSlot (sound : Sound kind hash manager) {name : α} {i : Fin 4}
    (found : manager.mapRes name = some item)
    (unread : manager.Unread kind hash (bucket kind hash name) i) :
    Sound kind hash (manager.setSlot (bucket kind hash name) i (some item)) := by
  refine ⟨?_, sound.mapped, sound.discard, fun finder mem => ?_⟩
  · intro b j other cached
    by_cases here : bucket kind hash name = b ∧ i = j
    · rcases here with ⟨rfl, rfl⟩
      rw [setSlot_self] at cached
      cases cached
      exact ⟨name, (sound.mapped name item found).1, found, rfl⟩
    · rw [setSlot_of_ne manager fun same => fun equal => here ⟨same, equal⟩] at cached
      exact sound.cached b j other cached
  · exact (sound.finders finder mem).frame (fun _ _ named => named) (fun _ mem => mem)
      (fun _ found => Or.inl found) (slots_of_unread unread mem)

theorem Sound.storeSlot (sound : Sound kind hash manager) {name : α} {epos : Option (Fin 4)}
    (found : manager.mapRes name = some item)
    (unread : ∀ i, epos = some i → manager.Unread kind hash (bucket kind hash name) i) :
    Sound kind hash (manager.storeSlot (bucket kind hash name) epos item) := by
  cases epos with
  | none => exact sound
  | some i => exact sound.setSlot found (unread i rfl)

theorem storeSlot_frame (manager : ResManager α) (b : ℕ) (epos : Option (Fin 4)) (item : ℕ) :
    (manager.storeSlot b epos item).finders = manager.finders ∧
      (manager.storeSlot b epos item).mapRes = manager.mapRes := by
  cases epos <;> exact ⟨rfl, rfl⟩

theorem Sound.visit (sound : Sound kind hash manager) (lastVisit : ℕ → ℕ) :
    Sound kind hash { manager with lastVisit := lastVisit } :=
  ⟨sound.cached, sound.mapped, sound.discard, fun finder mem =>
    (sound.finders finder mem).frame (fun _ _ named => named) (fun _ mem => mem)
      (fun _ found => Or.inl found) fun _ _ => rfl⟩

theorem Sound.findLocked (sound : Sound kind hash manager)
    (found : manager.finders[k]? = some finder) {epos : Option (Fin 4)}
    (unread : ∀ i, epos = some i → manager.mapRes finder.name ≠ none →
      manager.Unread kind hash (bucket kind hash finder.name) i) :
    Sound kind hash (manager.findLocked kind hash k finder epos time) := by
  have mem : finder ∈ manager.finders := List.mem_of_getElem? found
  unfold ResManager.findLocked
  cases there : manager.mapRes finder.name with
  | none =>
      apply sound.setFinder found
      intro old present
      rcases (sound.finders finder mem).present old present with here | gone
      · rw [there] at here
        cases here
      · exact gone
  | some item =>
      have sound' := sound.storeSlot there fun i same =>
        unread i same (by rw [there]; exact Option.some_ne_none _)
      rcases storeSlot_frame manager (bucket kind hash finder.name) epos item with
        ⟨finders, mapRes⟩
      simp only
      generalize manager.storeSlot (bucket kind hash finder.name) epos item = stored at *
      have mem' : finder ∈ stored.finders := finders.symm ▸ mem
      have there' : stored.mapRes finder.name = some item := mapRes.symm ▸ there
      split
      · have visited := sound'.visit (Function.update stored.lastVisit item time)
        exact visited.setFinder (finders.symm ▸ found) (visited.returned mem' there')
      · exact sound'.setFinder (finders.symm ▸ found) (sound'.returned mem' there')

theorem sound_new : Sound kind hash ({} : ResManager α) :=
  ⟨nofun, nofun, nofun, nofun⟩

/-! ## Steps -/

variable [DecidableEq α]

theorem Sound.add (sound : Sound kind hash manager)
    (steady : manager.mapRes name = none →
      manager.Unread kind hash (bucket kind hash name) (manager.addPos kind hash name)) :
    Sound kind hash (manager.add kind hash name time) := by
  unfold ResManager.add
  cases there : manager.mapRes name with
  | some item => exact sound
  | none =>
      have last : (manager.names ++ [name])[manager.names.length]? = some name := by simp
      have other : ∀ name' item, manager.mapRes name' = some item → name' ≠ name := by
        rintro name' item found rfl
        rw [there] at found
        cases found
      refine ⟨?_, ?_, ?_, ?_⟩
      · intro b i item cached
        by_cases here : bucket kind hash name = b ∧ manager.addPos kind hash name = i
        · rcases here with ⟨rfl, rfl⟩
          have same : manager.names.length = item :=
            Option.some.inj ((setSlot_self manager _ _ _).symm.trans cached)
          subst same
          exact ⟨name, last, by simp, rfl⟩
        · have old : manager.fastCache b i = some item :=
            (setSlot_of_ne manager fun same => fun equal => here ⟨same, equal⟩).symm.trans cached
          rcases sound.cached b i item old with ⟨name', named, found, home⟩
          exact ⟨name', getElem?_append_name named name,
            by simpa [other name' item found] using found, home⟩
      · intro name' item found
        by_cases here : name' = name
        · subst here
          simp only [Function.update_self, Option.some.injEq] at found
          subst found
          exact ⟨last, fun mem => Nat.lt_irrefl _ (sound.discard _ mem)⟩
        · simp only [Function.update_of_ne here] at found
          rcases sound.mapped name' item found with ⟨named, left⟩
          exact ⟨getElem?_append_name named name, left⟩
      · intro item mem
        simp only [List.length_append, List.length_singleton]
        exact Nat.lt_succ_of_lt (sound.discard item mem)
      · intro finder mem
        refine (sound.finders finder mem).frame ?_ (fun _ mem => mem) ?_ ?_
        · exact fun item name' named => getElem?_append_name named name
        · intro item found
          exact Or.inl (by simpa [other _ item found] using found)
        · exact slots_of_unread (steady there) mem

theorem Sound.remove (sound : Sound kind hash manager)
    (steady : Steady kind hash manager (.remove name)) :
    Sound kind hash (manager.remove kind hash name) := by
  unfold ResManager.remove
  cases there : manager.mapRes name with
  | none => exact sound
  | some item =>
      have alone := steady item there
      have named := (sound.mapped name item there).1
      have elsewhere : ∀ b i, manager.fastCache b i = some item → b = bucket kind hash name := by
        intro b i cached
        rcases sound.cached b i item cached with ⟨name', named', _, home⟩
        rw [named] at named'
        rw [Option.some.inj named', home]
      rcases clearSlot_frame manager (bucket kind hash name) item with ⟨names, finders⟩
      simp only
      refine ⟨?_, ?_, ?_, ?_⟩
      · intro b i other cached
        rcases clearSlot_cached (fun i j held => (alone i j held).1) elsewhere cached with
          ⟨old, differ⟩
        rcases sound.cached b i other old with ⟨name', named', found, home⟩
        have differ' : name' ≠ name := by
          rintro rfl
          rw [there] at found
          exact differ (Option.some.inj found).symm
        exact ⟨name', names.symm ▸ named', by simpa [differ'] using found, home⟩
      · intro name' other found
        by_cases here : name' = name
        · subst here
          simp at found
        · simp only [Function.update_of_ne here] at found
          rcases sound.mapped name' other found with ⟨named', left⟩
          refine ⟨names.symm ▸ named', fun mem => ?_⟩
          rcases List.mem_append.mp mem with mem | mem
          · exact left mem
          · rw [List.mem_singleton.mp mem, named] at named'
            exact here (Option.some.inj named').symm
      · intro other mem
        rw [names]
        rcases List.mem_append.mp mem with mem | mem
        · exact sound.discard other mem
        · rw [List.mem_singleton.mp mem]
          exact sound.item_lt there
      · intro finder mem
        rw [finders] at mem
        refine (sound.finders finder mem).frame ?_ ?_ ?_
          (clearSlot_unread (fun i held => (alone i i held).2) mem)
        · exact fun other name' named' => names.symm ▸ named'
        · exact fun other mem => List.mem_append_left _ mem
        · intro other found
          by_cases here : finder.name = name
          · rw [here, there] at found
            exact Or.inr (List.mem_append_right _ (by simpa using found.symm))
          · exact Or.inl (by simpa [here] using found)

theorem Sound.findStep (sound : Sound kind hash manager)
    (found : manager.finders[k]? = some finder)
    (unread : ∀ i, finder.stage = .lock (some i) → manager.mapRes finder.name ≠ none →
      manager.Unread kind hash (bucket kind hash finder.name) i)
    (step : manager.findStep kind hash k finder time = some manager') :
    Sound kind hash manager' := by
  have mem : finder ∈ manager.finders := List.mem_of_getElem? found
  have stage := (sound.finders finder mem).stage
  unfold StageSound at stage
  unfold ResManager.findStep at step
  cases here : finder.stage with
  | test i epos =>
      simp only [here] at step
      cases step
      apply sound.setFinder found
      split
      · exact stageSound_afterSlot finder i _
      · assumption
  | compare i epos =>
      simp only [here] at step stage
      split at step
      · rename_i none
        exact absurd none stage
      · rename_i item cached
        cases step
        apply sound.setFinder found
        split
        · rename_i named
          split <;> exact ⟨item, cached, named⟩
        · exact stageSound_afterSlot finder i _
  | visit i =>
      simp only [here] at step stage
      rcases stage with ⟨item, cached, named⟩
      simp only [cached] at step
      cases step
      have visited := sound.visit (Function.update manager.lastVisit item time)
      exact visited.setFinder found ⟨item, cached, named⟩
  | take i =>
      simp only [here] at step stage
      rcases stage with ⟨item, cached, named⟩
      simp only [cached, reduceCtorEq, false_and, if_false] at step
      cases step
      apply sound.setFinder found
      -- what the cache has under the name the map has too
      rcases sound.cached _ i item cached with ⟨name, named', mapped, _⟩
      rw [named] at named'
      rw [← Option.some.inj named'] at mapped
      exact sound.returned mem mapped
  | lock epos =>
      simp only [here] at step
      cases step
      exact sound.findLocked found fun i same => unread i (same ▸ here)
  | returned result =>
      simp only [here] at step
      cases step
  | crashed =>
      simp only [here] at step
      cases step

theorem sound_next (sound : Sound kind hash manager) {event : ManagerEvent α}
    (steady : Steady kind hash manager event)
    (step : next kind hash manager event = some manager') : Sound kind hash manager' := by
  cases event with
  | add name time =>
      cases step
      exact sound.add steady
  | remove name =>
      cases step
      exact sound.remove steady
  | find name =>
      cases step
      refine { sound with finders := fun finder mem => ?_ }
      rcases List.mem_append.mp mem with mem | mem
      · exact (sound.finders finder mem).frame (fun _ _ named => named) (fun _ mem => mem)
          (fun _ found => Or.inl found) fun _ _ => rfl
      · rw [List.mem_singleton.mp mem]
        exact ⟨fun _ mem => mem, fun _ found => Or.inl found, trivial⟩
  | step k time =>
      rcases Option.bind_eq_some_iff.mp step with ⟨finder, found, step⟩
      exact sound.findStep found (steady finder found) step

/-- What a call returns: nothing that had been removed before it began, and what is in the map from
its beginning. -/
structure Resolved (manager : ResManager α) (finder : Finder α) : Prop where
  notCrashed : finder.stage ≠ .crashed
  named : ∀ item, finder.stage = .returned (some item) →
    manager.names[item]? = some finder.name ∧ item ∉ finder.discarded
  present : ∀ result item, finder.stage = .returned result → finder.present = some item →
    item ∉ manager.discard → result = some item

theorem resolved_of_steady (kind : ManagerKind) (hash : α → ℕ) (manager : ResManager α)
    (run : Reaches (next kind hash) (Steady kind hash) {} manager) :
    ∀ finder ∈ manager.finders, manager.Resolved finder := by
  have sound : Sound kind hash manager := run.preserves sound_new
    fun _ _ _ steady sound step => sound_next sound steady step
  intro finder mem
  have stage := (sound.finders finder mem).stage
  unfold StageSound at stage
  refine ⟨fun same => ?_, fun item same => ?_, fun result item same present left => ?_⟩
  · simp only [same] at stage
  · simp only [same] at stage
    exact ⟨stage.1, stage.2.1⟩
  · cases result with
    | none =>
        simp only [same] at stage
        exact absurd (stage item present) left
    | some other =>
        simp only [same] at stage
        rw [stage.2.2 item present left]

/-- The hash of a short name is for the most part its last byte. -/
def lastByte (name : List ℕ) : ℕ := name.getLastD 0

/-- A table is found, removed, not found, added again and found again. -/
theorem resolved_of_steady_again : ∃ manager,
    Reaches (next tableManager lastByte) (Steady tableManager lastByte) {} manager ∧
      manager.finders.map Finder.stage =
        [.returned (some 0), .returned none, .returned (some 1)] ∧
      ∀ finder ∈ manager.finders, manager.Resolved finder := by
  let events : List (ManagerEvent (List ℕ)) :=
    [.add [100, 46, 120] 1, .find [100, 46, 120], .step 0 0, .step 0 0, .step 0 0,
      .remove [100, 46, 120], .find [100, 46, 120], .step 1 0, .step 1 0, .step 1 0, .step 1 0,
      .step 1 0, .find [100, 46, 120], .step 2 0, .step 2 0, .step 2 0, .step 2 0,
      .add [100, 46, 120] 2, .step 2 0]
  have executed : (execPermitted (next tableManager lastByte) (Steady tableManager lastByte) events
      {}).map (fun manager => manager.finders.map Finder.stage) =
        some [.returned (some 0), .returned none, .returned (some 1)] := by
    decide +kernel
  rcases Option.map_eq_some_iff.mp executed with ⟨manager, run, stages⟩
  have reached := reaches_of_execPermitted events run
  exact ⟨manager, reached, stages, resolved_of_steady tableManager lastByte manager reached⟩

/-- A call stores a table into a second slot, and the removal clears the first one only. -/
theorem not_resolved_twice :
    (¬∀ manager, Reaches (next tableManager lastByte) anyInput {} manager →
      ∀ finder ∈ manager.finders, manager.Resolved finder) ∧
    ¬∀ manager, Reaches (next databaseManager lastByte) anyInput {} manager →
      ∀ finder ∈ manager.finders, manager.Resolved finder := by
  let events : List (ManagerEvent (List ℕ)) :=
    [.add [101, 46, 120] 1, .find [100, 46, 120], .step 0 0, .step 0 0, .step 0 0, .step 0 0,
      .step 0 0, .remove [101, 46, 120], .add [100, 46, 120] 2, .step 0 0, .remove [100, 46, 120],
      .find [100, 46, 120], .step 1 0, .step 1 0, .step 1 0, .step 1 0]
  have stale : ∀ kind : ManagerKind, ∀ more : List (ManagerEvent (List ℕ)),
      (exec (next kind lastByte) (events ++ more) {}).map (fun manager =>
        (manager.finders[1]?).map fun finder => (finder.stage, finder.discarded)) =
          some (some (.returned (some 1), [0, 1])) →
      ¬∀ manager, Reaches (next kind lastByte) anyInput {} manager →
        ∀ finder ∈ manager.finders, manager.Resolved finder := by
    intro kind more executed always
    rcases Option.map_eq_some_iff.mp executed with ⟨manager, run, second⟩
    rcases Option.map_eq_some_iff.mp second with ⟨finder, found, state⟩
    rcases Prod.mk.inj state with ⟨returned, discarded⟩
    have resolved := always manager (reaches_of_exec _ run) finder (List.mem_of_getElem? found)
    have left := (resolved.named 1 returned).2
    rw [discarded] at left
    exact left (by decide)
  exact ⟨stale tableManager [] (by decide +kernel),
    stale databaseManager [.step 1 0] (by decide +kernel)⟩

end ResManager

end RapidDb
