import SymbolIndex.Collector
import SymbolIndex.Proofs.Engine.Newest
import SymbolIndex.Proofs.Engine.UpToDate

/-!
# Indexing bit by bit

An engine is called again and again while the files change, and each call leaves most of
what is stored as it is. After every submission the store has nevertheless what an index
made from nothing would have: the answers of the collector to the present contents of
the files and the present arguments of the parts. This rests on statuses that tell
contents apart, on digests that tell results apart, and on tasks that do not fail.
-/

namespace SymbolIndex

/-!
# Contents
-/

/-- The content of a file: what is generated for it, else what is on the disk. -/
def Scene.content? (scene : Scene) (p : Path) : Option (List UInt8) :=
  match scene.overlay.content? p with
  | some text => some (Text.bytesOf text)
  | none => (scene.disk.read p).toOption

/-- A file that has one status in two scenes has one content in both. -/
def Steady (seen : List Scene) : Prop :=
  forall u, u ∈ seen -> forall v, v ∈ seen -> forall p status,
    u.overlay.currentStatus u.disk p = .ok status ->
    v.overlay.currentStatus v.disk p = .ok status -> u.content? p = v.content? p

/-- The results for a file depend on nothing but its content and the arguments. -/
def ReadsContent (collect : Disk -> Overlay -> Path -> List String -> Collected) : Prop :=
  forall (u v : Scene) p arguments r, u.content? p = v.content? p ->
    collect u.disk u.overlay p arguments = .results r ->
    collect v.disk v.overlay p arguments = .results r

theorem ofFile_eq_results_iff (grammar : Grammar) (scene : Scene) (p : Path)
    (arguments : List String) (r : Results) :
    Collected.ofFile grammar scene.disk scene.overlay p arguments = .results r ↔
      exists language source, Collected.languageOf p arguments = some language ∧
        (scene.content? p).bind Text.ofBytes? = some source ∧
        Collected.ofSource grammar language p source = .results r := by
  unfold Collected.ofFile Scene.content?
  cases Collected.languageOf p arguments with
  | none => simp
  | some language =>
      cases scene.overlay.content? p with
      | some text => simp [Text.ofBytes?_bytesOf]
      | none =>
          unfold Disk.readText
          cases scene.disk.read p with
          | error fault => simp [bind, Except.bind, Except.toOption]
          | ok bytes =>
              cases hsource : Text.ofBytes? bytes with
              | none => simp [bind, Except.bind, Except.toOption, hsource]
              | some source => simp [bind, Except.bind, pure, Except.pure, Except.toOption, hsource]

theorem readsContent_ofFile (grammar : Grammar) : ReadsContent (Collected.ofFile grammar) := by
  intro u v p arguments r hcontent hanswer
  rcases (ofFile_eq_results_iff grammar u p arguments r).mp hanswer with
    ⟨language, source, hlanguage, hsource, hresults⟩
  rw [hcontent] at hsource
  exact (ofFile_eq_results_iff grammar v p arguments r).mpr
    ⟨language, source, hlanguage, hsource, hresults⟩

namespace World

variable {s : Surroundings} {w : World} {seen : List Scene} {due : List Task} {log : List Landing}

/-!
# Turns
-/

def scene (w : World) : Scene := ⟨w.disk, w.engine.overlay⟩

/-- What there is to be collected in the course of a history. -/
def scenes (s : Surroundings) : World -> List Event -> List Scene
  | w, [] => [w.scene]
  | w, event :: rest => w.scene :: scenes s (happen s w event) rest

/-- A call of the engine or a step of the file system. -/
def isDeed : Event -> Bool
  | .submit _ => true
  | .removeParts _ => true
  | .handle _ => true
  | .generate _ => true
  | .ungenerate _ => true
  | .edit _ => true
  | _ => false

/-- The workers go on. -/
def isDraining : Event -> Bool
  | .work _ => true
  | .dispatch => true
  | .sweep => true
  | _ => false

/-- The paths that an event brings up are text. -/
def Spelled : Event -> Prop
  | .submit parts => forall part, part ∈ parts -> forall p, p ∈ part.files -> p.IsText
  | .generate files => forall f, f ∈ files -> f.1.IsText
  | .ungenerate paths => forall p, p ∈ paths -> p.IsText
  | _ => True

instance : DecidablePred Spelled := fun event =>
  match event with
  | .submit parts =>
      inferInstanceAs
        (Decidable (forall part, part ∈ parts -> forall p, p ∈ part.files -> p.IsText))
  | .generate files => inferInstanceAs (Decidable (forall f, f ∈ files -> f.1.IsText))
  | .ungenerate paths => inferInstanceAs (Decidable (forall p, p ∈ paths -> p.IsText))
  | .removeParts _ | .handle _ | .receive | .edit _ | .flush _ | .work _ | .dispatch | .sweep
  | .disable | .restart _ => inferInstanceAs (Decidable True)

/-- A call or a step of the file system, and what the workers do until they have nothing to do. -/
structure Turn where
  deed : Event
  drain : List Event

namespace Turn

def events (t : Turn) : List Event := t.deed :: t.drain

/-- A turn that comes to rest, in which parts are submitted once each with files that can be watched. -/
structure Proper (s : Surroundings) (w : World) (t : Turn) : Prop where
  deed : isDeed t.deed = true
  drain : forall event, event ∈ t.drain -> isDraining event = true
  rest : (run s w t.events).AtRest
  spelled : Spelled t.deed
  distinct : forall parts, t.deed = .submit parts -> (parts.map Part.id).Nodup
  indexable : forall file, IndexableAt s file w t.deed

/-- Some turns, one event after the other. -/
def history : List Turn -> List Event
  | [] => []
  | t :: rest => t.events ++ history rest

theorem history_append (before after : List Turn) :
    history (before ++ after) = history before ++ history after := by
  induction before with
  | nil => rfl
  | cons t rest ih => rw [List.cons_append, history, history, ih, List.append_assoc]

end Turn

/-- All turns are proper, each in the world that the turns before it leave behind. -/
def Orderly (s : Surroundings) : World -> List Turn -> Prop
  | _, [] => True
  | w, t :: rest => t.Proper s w ∧ Orderly s (run s w t.events) rest

theorem run_append (s : Surroundings) (w : World) (before after : List Event) :
    run s w (before ++ after) = run s (run s w before) after := by
  rw [run, run, run, List.foldl_append]

theorem landings_append (s : Surroundings) (w : World) (before after : List Event) :
    landings s w (before ++ after) =
      landings s w before ++ landings s (run s w before) after := by
  induction before generalizing w with
  | nil => rfl
  | cons event rest ih =>
      rw [List.cons_append, landings, landings, ih, List.append_assoc]
      rfl

theorem scene_mem_scenes (s : Surroundings) (w : World) (history : List Event) :
    w.scene ∈ scenes s w history := by
  cases history with
  | nil => exact List.mem_cons_self
  | cons event rest => exact List.mem_cons_self

theorem scenes_append (s : Surroundings) (w : World) (before after : List Event) :
    (forall scene, scene ∈ scenes s w before -> scene ∈ scenes s w (before ++ after)) ∧
      forall scene, scene ∈ scenes s (run s w before) after ->
        scene ∈ scenes s w (before ++ after) := by
  induction before generalizing w with
  | nil =>
      constructor
      · intro scene hscene
        rw [List.mem_singleton.mp hscene]
        exact scene_mem_scenes s w after
      · intro scene hscene
        exact hscene
  | cons event rest ih =>
      rcases ih (happen s w event) with ⟨hbefore, hafter⟩
      constructor
      · intro scene hscene
        rcases List.mem_cons.mp hscene with rfl | hrest
        · exact List.mem_cons_self
        · exact List.mem_cons_of_mem _ (hbefore scene hrest)
      · intro scene hscene
        exact List.mem_cons_of_mem _ (hafter scene hscene)

theorem Turn.Proper.same {t : Turn} (h : t.Proper s w) (concurrency : Nat) :
    .restart concurrency ∉ t.events := by
  intro hmem
  rcases List.mem_cons.mp hmem with hdeed | hdrain
  · have hkind := h.deed
    rw [← hdeed] at hkind
    cases hkind
  · cases h.drain _ hdrain

/-!
# Draining
-/

theorem upToDate_work (h : Engine.UpToDate s seen w.disk due w.engine log) (ticket : Nat)
    (huntroubled : (happen s w (.work ticket)).engine.scheduler.Untroubled)
    (hapart : Engine.Apart (log ++ (landing? w (.work ticket)).toList)) :
    Engine.UpToDate s seen w.disk due (happen s w (.work ticket)).engine
      (log ++ (landing? w (.work ticket)).toList) := by
  have hworked := Engine.worked_stepTicket (s.environment w.disk) w.engine ticket
  change (Engine.stepTicket (s.environment w.disk) w.engine ticket).scheduler.Untroubled
    at huntroubled
  show Engine.UpToDate s seen w.disk due
    (Engine.stepTicket (s.environment w.disk) w.engine ticket) _
  generalize Engine.stepTicket (s.environment w.disk) w.engine ticket = e' at hworked huntroubled ⊢
  cases hworked with
  | idle hidle =>
      rw [landing?_work_of_idle hidle, Option.toList_none, List.append_nil]
      exact h
  | begins job p status hjob hstage hpath hstatus halike =>
      rw [landing?_work_eq_none hjob (by simp [hstage]), Option.toList_none, List.append_nil]
      rcases Scheduler.mem_of_job? hjob with ⟨hmem, rfl⟩
      have hreads : Engine.InHand s w.disk w.engine { job with stage := .reading p status } :=
        ⟨hpath, hstatus⟩
      apply (h.setStage hjob ?_ rfl hreads).of_alike halike
      rw [Job.isFinished, hstage]
  | collects job p status r hjob hstage hanswer halike =>
      rw [landing?_work_eq_none hjob (by simp [hstage]), Option.toList_none, List.append_nil]
      rcases Scheduler.mem_of_job? hjob with ⟨hmem, rfl⟩
      have hinHand := h.inHand job hmem
      rw [Engine.InHand, hstage] at hinHand
      have hanswered : Engine.InHand s w.disk w.engine { job with stage := .collected status r } :=
        ⟨p, hinHand.1, hinHand.2, hanswer⟩
      apply (h.setStage hjob ?_ rfl hanswered).of_alike halike
      rw [Job.isFinished, hstage]
  | fails job outcome poisoned hjob hfailure halike =>
      exact absurd (huntroubled.since _) (Engine.not_untroubled_of_fails hfailure halike)
  | lands job status r outcome wrote t hjob hstage hok =>
      rw [landing?_work_eq_some hjob hstage hok, Option.toList_some] at hapart ⊢
      rcases Scheduler.mem_of_job? hjob with ⟨hmem, rfl⟩
      exact h.lands hjob hstage hok hapart

theorem upToDate_drain (h : Engine.UpToDate s seen w.disk due w.engine log) {drain : List Event}
    (hdraining : forall event, event ∈ drain -> isDraining event = true)
    (huntroubled : (run s w drain).engine.scheduler.Untroubled)
    (hapart : Engine.Apart (log ++ landings s w drain)) :
    Engine.UpToDate s seen (run s w drain).disk due (run s w drain).engine
      (log ++ landings s w drain) := by
  induction drain generalizing w log with
  | nil =>
      rw [landings, List.append_nil]
      exact h
  | cons event rest ih =>
      have hrest : forall next, next ∈ rest -> isDraining next = true :=
        fun next hnext => hdraining next (List.mem_cons_of_mem _ hnext)
      have hsame : forall concurrency, .restart concurrency ∉ rest := by
        intro concurrency hmem
        cases hrest _ hmem
      have hone : (happen s w event).engine.scheduler.Untroubled :=
        huntroubled.of_prefix (reports_run (agrees_happen h.agrees event) hsame)
      rw [landings, ← List.append_assoc] at hapart ⊢
      apply ih ?_ hrest huntroubled hapart
      have hbefore := hapart.of_append_left
      have hkind := hdraining event List.mem_cons_self
      cases event with
      | work ticket => exact upToDate_work h ticket hone hbefore
      | dispatch =>
          show Engine.UpToDate s seen w.disk due (Engine.dispatch _ w.engine) (log ++ [])
          rw [List.append_nil]
          exact h.dispatch hone
      | sweep =>
          show Engine.UpToDate s seen w.disk due _ (log ++ [])
          rw [List.append_nil]
          exact h.sweep
      | _ => cases hkind

/-!
# Turns of a run
-/

/-- The tasks that an event asks for. -/
def asked (w : World) : Event -> List Task
  | .submit parts => Engine.tasksAsked (Engine.prepare ∅ w.engine parts).1.1
  | _ => []

theorem upToDate_deed (h : Engine.UpToDate s seen w.disk due w.engine log)
    (hidle : w.engine.scheduler.jobs = []) {event : Event} (hdeed : isDeed event = true)
    (hspelled : Spelled event)
    (hdistinct : forall parts, event = .submit parts -> (parts.map Part.id).Nodup)
    (hindexable : forall file, IndexableAt s file w event)
    (hnow : (happen s w event).scene ∈ seen)
    (huntroubled : (happen s w event).engine.scheduler.Untroubled) :
    Engine.UpToDate s seen (happen s w event).disk (asked w event) (happen s w event).engine log := by
  cases event with
  | submit parts => exact h.updateParts hidle (hdistinct parts rfl) hspelled hindexable huntroubled
  | removeParts ids => exact h.removeParts hidle ids hnow
  | handle change => exact h.handleChange change huntroubled
  | generate files => exact h.updateGenerated hidle hspelled hnow huntroubled
  | ungenerate paths => exact h.removeGenerated hidle hspelled hnow huntroubled
  | edit change =>
      have hedited := fun d hnow => @Engine.UpToDate.of_carried_unasked s seen w.disk due w.engine
        w.engine log h hidle (Engine.Carried.refl _) h.agrees d hnow
      unfold happen at hnow ⊢
      dsimp only at hnow ⊢
      split
      · rename_i d hchanged
        rw [hchanged] at hnow
        exact hedited d hnow
      · rename_i fault hchanged
        rw [hchanged] at hnow
        exact hedited w.disk hnow
  | _ => cases hdeed

theorem landings_deed {event : Event} (hdeed : isDeed event = true) (history : List Event) :
    landings s w (event :: history) = landings s (happen s w event) history := by
  cases event with
  | work ticket => cases hdeed
  | _ => rfl

theorem upToDate_turn (h : Engine.UpToDate s seen w.disk due w.engine log)
    (hidle : w.engine.scheduler.jobs = []) {t : Turn} (hproper : t.Proper s w)
    (hseen : forall scene, scene ∈ scenes s w t.events -> scene ∈ seen)
    (huntroubled : (run s w t.events).engine.scheduler.Untroubled)
    (hapart : Engine.Apart (log ++ landings s w t.events)) :
    Engine.UpToDate s seen (run s w t.events).disk (asked w t.deed) (run s w t.events).engine
      (log ++ landings s w t.events) := by
  rw [Turn.events, landings_deed hproper.deed] at hapart ⊢
  apply upToDate_drain ?_ hproper.drain huntroubled hapart
  apply upToDate_deed h hidle hproper.deed hproper.spelled hproper.distinct hproper.indexable
  · apply hseen
    exact List.mem_cons_of_mem _ (scene_mem_scenes s _ t.drain)
  · apply huntroubled.of_prefix
    apply reports_run (agrees_happen h.agrees t.deed)
    intro concurrency hmem
    exact hproper.same concurrency (List.mem_cons_of_mem _ hmem)

theorem Orderly.same {turns : List Turn} (h : Orderly s w turns) (concurrency : Nat) :
    .restart concurrency ∉ Turn.history turns := by
  induction turns generalizing w with
  | nil =>
      intro hmem
      cases hmem
  | cons t rest ih =>
      intro hmem
      rcases List.mem_append.mp hmem with hturn | hrest
      · exact h.1.same concurrency hturn
      · exact ih h.2 hrest

theorem upToDate_turns (h : Engine.UpToDate s seen w.disk due w.engine log)
    (hidle : w.engine.scheduler.jobs = []) {turns : List Turn} (horderly : Orderly s w turns)
    (hseen : forall scene, scene ∈ scenes s w (Turn.history turns) -> scene ∈ seen)
    (huntroubled : (run s w (Turn.history turns)).engine.scheduler.Untroubled)
    (hapart : Engine.Apart (log ++ landings s w (Turn.history turns))) :
    (run s w (Turn.history turns)).engine.scheduler.jobs = [] ∧ exists last,
      Engine.UpToDate s seen (run s w (Turn.history turns)).disk last
        (run s w (Turn.history turns)).engine (log ++ landings s w (Turn.history turns)) := by
  induction turns generalizing w due log with
  | nil =>
      rw [Turn.history, landings, List.append_nil]
      exact ⟨hidle, due, h⟩
  | cons t rest ih =>
      have hscenes := scenes_append s w t.events (Turn.history rest)
      rw [Turn.history, run_append] at huntroubled ⊢
      rw [Turn.history, landings_append, ← List.append_assoc] at hapart
      rw [landings_append, ← List.append_assoc]
      have hturn := upToDate_turn h hidle horderly.1
        (fun scene hscene => hseen scene (hscenes.1 scene hscene))
        (huntroubled.of_prefix (reports_run (agrees_run h.agrees t.events) horderly.2.same))
        hapart.of_append_left
      exact ih hturn horderly.1.rest.2 horderly.2
        (fun scene hscene => hseen scene (hscenes.2 scene hscene)) huntroubled hapart

/-!
# After a submission
-/

theorem frame_happen (hagrees : w.engine.Agrees) {event : Event}
    (hdraining : isDraining event = true) :
    (happen s w event).scene = w.scene ∧
      (happen s w event).engine.storage.store.sources = w.engine.storage.store.sources := by
  cases event with
  | work ticket =>
      rcases (Engine.worked_stepTicket (s.environment w.disk) w.engine ticket).frame hagrees with
        ⟨hoverlay, hsources⟩
      exact ⟨congrArg (Scene.mk w.disk) hoverlay, hsources⟩
  | dispatch => exact ⟨rfl, rfl⟩
  | sweep => exact ⟨rfl, rfl⟩
  | _ => cases hdraining

theorem sources_drain (hagrees : w.engine.Agrees) {drain : List Event}
    (hdraining : forall event, event ∈ drain -> isDraining event = true) :
    (run s w drain).engine.storage.store.sources = w.engine.storage.store.sources := by
  induction drain generalizing w with
  | nil => rfl
  | cons event rest ih =>
      have hone := (frame_happen (s := s) hagrees (hdraining event List.mem_cons_self)).2
      apply Eq.trans ?_ hone
      apply ih (agrees_happen hagrees event)
      intro next hnext
      exact hdraining next (List.mem_cons_of_mem _ hnext)

theorem orderly_append (s : Surroundings) (w : World) (before after : List Turn) :
    Orderly s w (before ++ after) ↔
      Orderly s w before ∧ Orderly s (run s w (Turn.history before)) after := by
  induction before generalizing w with
  | nil => exact (iff_of_eq (true_and _)).symm
  | cons t rest ih =>
      rw [List.cons_append, Orderly, Orderly, ih, Turn.history, run_append, and_assoc]

/-- No task fails, statuses tell contents apart, and digests tell results apart. -/
structure Clear (s : Surroundings) (w : World) (history : List Event) : Prop where
  untroubled : (run s w history).engine.scheduler.Untroubled
  steady : Steady (scenes s w history)
  apart : Engine.Apart (landings s w history)

theorem stored_of_submitted (hcollect : ReadsContent s.collect)
    (h : Engine.UpToDate s seen w.disk due w.engine log) (hrest : w.AtRest)
    (hsteady : Steady seen) {task : Task} (htask : task ∈ due) :
    exists p r, w.engine.path? task.file = some p ∧
      s.collect w.disk w.engine.overlay p task.arguments = .results r ∧
      w.engine.storage.store.Records task.file task.part r := by
  rcases h.answered_of_rest hrest.1 hrest.2 htask with
    ⟨p, status, r, hp, hstatus, ⟨before, hbefore, hsame, hanswer⟩, hrecords⟩
  have hcontent : before.content? p = w.scene.content? p :=
    hsteady before hbefore w.scene h.now p status hsame hstatus
  exact ⟨p, r, hp, hcollect before w.scene p task.arguments r hcontent hanswer, hrecords⟩

theorem exists_asked (hagrees : w.engine.Agrees) {parts : List Part}
    (hdistinct : (parts.map Part.id).Nodup) {part : Part} (hpart : part ∈ parts)
    (haccepted : part.id ∈ (Engine.prepare ∅ w.engine parts).1.1.map PreparedPart.id)
    {p : Path} (hp : p ∈ part.files) :
    exists task, task ∈ asked w (.submit parts) ∧ task.part = part.id ∧
      task.arguments = part.commandLine ∧
      (Engine.prepare ∅ w.engine parts).2.storage.store.source? task.file =
        some p.normalize.display := by
  rcases hagrees.prepare ∅ parts with ⟨-, -, hchecked, -⟩
  rcases List.mem_map.mp haccepted with ⟨prepared, hprepared, hid⟩
  rcases hchecked.prepares prepared hprepared with ⟨origin, horigin, hprepares⟩
  have hsame : origin = part :=
    List.inj_on_of_nodup_map hdistinct horigin hpart (hprepares.id.symm.trans hid)
  subst hsame
  rcases hprepares.files p hp with ⟨file, hfile, hsource⟩
  exact ⟨prepared.task file,
    List.mem_flatMap.mpr ⟨prepared, hprepared, List.mem_map.mpr ⟨file, hfile, rfl⟩⟩,
    hid, hprepares.arguments, hsource⟩

/--
An engine on an empty store is called any number of times, while the file system changes
in between, and the workers come to rest after each call. When parts were submitted and
the workers are at rest again, the store has for every file of an accepted part what the
collector answers now, to the content that the file has now and the arguments that the
part has now.
-/
theorem stored_eq_collected {d : Disk} {concurrency : Nat} {turns : List Turn}
    {parts : List Part} {drain : List Event} (hcollect : ReadsContent s.collect)
    (horderly : Orderly s (fresh d concurrency) (turns ++ [⟨.submit parts, drain⟩]))
    (hclear : Clear s (fresh d concurrency)
      (Turn.history (turns ++ [⟨.submit parts, drain⟩]))) {part : Part} (hpart : part ∈ parts)
    (haccepted : part.id ∈ (Engine.prepare ∅
      (run s (fresh d concurrency) (Turn.history turns)).engine parts).1.1.map PreparedPart.id)
    {p : Path} (hp : p ∈ part.files) :
    let w := run s (fresh d concurrency) (Turn.history (turns ++ [⟨.submit parts, drain⟩]))
    exists file r, w.engine.book.find? w.engine.storage.store p = some file ∧
      s.collect w.disk w.engine.overlay p.normalize part.commandLine = .results r ∧
      w.engine.storage.store.Records file part.id r := by
  rcases (orderly_append s _ turns _).mp horderly with ⟨hturns, hlast, -⟩
  have hhistory : Turn.history (turns ++ [⟨.submit parts, drain⟩]) =
      Turn.history turns ++ Turn.events ⟨.submit parts, drain⟩ := by
    rw [Turn.history_append, Turn.history, Turn.history, List.append_nil]
  rw [hhistory] at hclear ⊢
  rcases hclear with ⟨huntroubled, hsteady, hapart⟩
  have hscenes := scenes_append s (fresh d concurrency) (Turn.history turns)
    (Turn.events ⟨.submit parts, drain⟩)
  rw [run_append] at huntroubled ⊢
  rw [landings_append] at hapart
  have hbegun := agrees_run (s := s) (agrees_fresh d concurrency) (Turn.history turns)
  -- everything is up to date before the submission, and again after it
  rcases upToDate_turns (Engine.upToDate_start (hscenes.1 _ (scene_mem_scenes s _ _)) _ _) rfl
    hturns hscenes.1 (huntroubled.of_prefix (reports_run hbegun hlast.same))
    hapart.of_append_left with ⟨hidle, last, hbefore⟩
  have hafter := upToDate_turn hbefore hidle hlast hscenes.2 huntroubled hapart
  generalize run s (fresh d concurrency) (Turn.history turns) = w at *
  intro w'
  rcases exists_asked hbegun (hlast.distinct parts rfl) hpart haccepted hp with
    ⟨task, hasked, htaskPart, harguments, hsource⟩
  rcases stored_of_submitted hcollect hafter hlast.rest hsteady hasked with
    ⟨q, r, hq, hanswer, hrecords⟩
  have hsources : w'.engine.storage.store.sources =
      (Engine.prepare ∅ w.engine parts).2.storage.store.sources :=
    (sources_drain (agrees_happen hbegun (.submit parts)) hlast.drain).trans
      (hbegun.frame_updateParts parts).2
  have hstored : w'.engine.storage.store.source? task.file = some p.normalize.display := by
    rw [Store.source?_of_sources_eq hsources]
    exact hsource
  -- the path is text, so what is shown of it leads back to it
  have hpath : q = p.normalize := by
    have htext : p.IsText := hlast.spelled part hpart p hp
    have hshown := hafter.textual task.file
    rw [show w'.engine.path? task.file = some q from hq, hstored, Option.map_some,
      Path.ofString_display (Path.isText_normalize htext)] at hshown
    exact Option.some.inj hshown
  rw [hpath, harguments] at hanswer
  rw [htaskPart] at hrecords
  exact ⟨task.file, r, hafter.agrees.book.find?_eq_some hstored, hanswer, hrecords⟩

/-!
# A part that is submitted twice
-/

/-- Submitting parts changes nothing of what there is to be collected. -/
theorem steady_of_isIndexing (hagrees : w.engine.Agrees) {history : List Event}
    (hindexing : forall event, event ∈ history -> isIndexing event = true) :
    Steady (scenes s w history) := by
  have hsame : forall scene, scene ∈ scenes s w history -> scene = w.scene := by
    induction history generalizing w with
    | nil =>
        intro scene hscene
        exact List.mem_singleton.mp hscene
    | cons event rest ih =>
        have hone : (happen s w event).scene = w.scene := by
          have hkind := hindexing event List.mem_cons_self
          cases event with
          | submit parts =>
              exact congrArg (Scene.mk w.disk) (hagrees.frame_updateParts parts).1
          | work ticket => exact (frame_happen hagrees rfl).1
          | dispatch => exact (frame_happen hagrees rfl).1
          | sweep => exact (frame_happen hagrees rfl).1
          | _ => cases hkind
        intro scene hscene
        rcases List.mem_cons.mp hscene with rfl | hrest
        · rfl
        · have hlater := ih (agrees_happen hagrees event)
            (fun next hnext => hindexing next (List.mem_cons_of_mem _ hnext)) scene hrest
          exact hlater.trans hone
  intro u hu v hv p status _hsame _hsame
  rw [hsame u hu, hsame v hv]

/-- A parser that finds one function, named by the first byte of the source. -/
def oneFunction : Grammar := fun _ _ =>
  some (.node ⟨"translation_unit", true, 0, 1, 0, 0, []⟩
    [.node ⟨"function_definition", true, 0, 1, 0, 0, []⟩
      [.node ⟨"identifier", true, 0, 1, 0, 0, [.name]⟩ []]])

/-- Source code is collected from the files of the disk. -/
def parsing : Surroundings where
  collect := Collected.ofFile oneFunction
  backend := .ofDisk
  fails := fun _ => none

/-- A disk with a source file, `/w/a`. -/
def sourceDisk : Disk :=
  (Disk.empty [Text.bytesOf "w"]).put [Text.bytesOf "w", Text.bytesOf "a"]
    (.file (Text.bytesOf "f") 0)

/-- A part is submitted, and its task is carried to its end. -/
def submission (arguments : List String) (ticket : Nat) : Turn :=
  ⟨.submit [partWith arguments], [.work ticket, .work ticket, .work ticket, .dispatch]⟩

theorem proper_submission {arguments : List String} {ticket : Nat}
    (hrest : (run s w (submission arguments ticket).events).AtRest)
    (hprepared : (Engine.prepare ∅ w.engine [partWith arguments]).1.1 =
      [⟨⟨"app"⟩, arguments, [⟨1⟩]⟩])
    (hindexable : Engine.Indexable (s.environment w.disk) ⟨1⟩
      (Engine.prepare ∅ w.engine [partWith arguments]).2 [⟨⟨"app"⟩, arguments, [⟨1⟩]⟩]) :
    (submission arguments ticket).Proper s w where
  deed := rfl
  drain := by
    intro event hevent
    rcases List.mem_append.mp (show event ∈ List.replicate 3 (.work ticket) ++ [.dispatch] from
      hevent) with hwork | hdispatch
    · rw [List.eq_of_mem_replicate hwork]
      rfl
    · rw [List.mem_singleton.mp hdispatch]
      rfl
  rest := hrest
  spelled := by
    intro part hpart p hp
    rw [List.mem_singleton.mp hpart] at hp
    rw [List.mem_singleton.mp hp]
    exact Path.isText_ofString "/w/a"
  distinct := by
    intro parts hparts
    cases hparts
    exact List.nodup_singleton _
  indexable := by
    intro file
    show Engine.Indexable (s.environment w.disk) file
      (Engine.prepare ∅ w.engine [partWith arguments]).2
      (Engine.prepare ∅ w.engine [partWith arguments]).1.1
    rw [hprepared]
    constructor
    · intro hfile
      rw [List.mem_singleton.mp hfile]
      exact hindexable.1 List.mem_cons_self
    · trivial

/-- A file that was indexed as C is indexed as C++ when its part asks for that. -/
theorem submitted_twice_is_stored :
    (run parsing (fresh sourceDisk 1) (Turn.history
      ([submission ["-xc"] 0] ++ [submission ["-xc++"] 1]))).engine.storage.store.Records ⟨1⟩
      ⟨"app"⟩ ⟨[⟨"c++:f", .callable, "f"⟩], [⟨0, 1, 1, .definition⟩]⟩ := by
  have hfirst : (submission ["-xc"] 0).Proper parsing (fresh sourceDisk 1) :=
    proper_submission (by decide +kernel) (by decide +kernel)
      ⟨fun _ => ⟨⟨⟨1, 0⟩, by decide +kernel⟩, by decide +kernel⟩, trivial⟩
  have hsecond : (submission ["-xc++"] 1).Proper parsing
      (run parsing (fresh sourceDisk 1) (submission ["-xc"] 0).events) :=
    proper_submission (by decide +kernel) (by decide +kernel)
      ⟨fun _ => ⟨⟨⟨1, 0⟩, by decide +kernel⟩, by decide +kernel⟩, trivial⟩
  have hclear : Clear parsing (fresh sourceDisk 1)
      (Turn.history ([submission ["-xc"] 0] ++ [submission ["-xc++"] 1])) :=
    ⟨by decide +kernel, steady_of_isIndexing (agrees_fresh _ _) (by decide), by decide +kernel⟩
  rcases @stored_eq_collected parsing sourceDisk 1 [submission ["-xc"] 0] [partWith ["-xc++"]]
    (submission ["-xc++"] 1).drain (readsContent_ofFile oneFunction) ⟨hfirst, hsecond, trivial⟩
    hclear (partWith ["-xc++"]) List.mem_cons_self (by decide +kernel) (.ofString "/w/a")
    List.mem_cons_self with ⟨file, r, hfile, hanswer, hrecords⟩
  have hnow : (let w := run parsing (fresh sourceDisk 1) (Turn.history
        ([submission ["-xc"] 0] ++ [submission ["-xc++"] 1]))
      w.engine.book.find? w.engine.storage.store (.ofString "/w/a") = some ⟨1⟩ ∧
        parsing.collect w.disk w.engine.overlay (Path.ofString "/w/a").normalize ["-xc++"] =
          .results ⟨[⟨"c++:f", .callable, "f"⟩], [⟨0, 1, 1, .definition⟩]⟩) := by
    dsimp only
    decide +kernel
  cases hfile.symm.trans hnow.1
  cases hanswer.symm.trans hnow.2
  exact hrecords

end World
end SymbolIndex
