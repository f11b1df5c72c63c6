import VaultSearch.Proofs.Saved.Store

namespace VaultSearch.Saved

open Text Yaml Time Store

inductive Operation
  | save (name query filters description : Value)
  | update (id : Text) (updates : List (Text × Value))
  | recordUse (id : Text)
  | delete (id : Text)
  | importText (data : Text) (merge : Bool)
  | list
  | get (id : Text)
  | frequent (limit : Option Int)
  | recent (limit : Option Int)
  | exported

/-- The file is as it was, or else the operation has come to its answer and what it has written is
the file. -/
def Commits {α : Type} (s : Store) (o : Outcome α) : Prop :=
  o.1.file = s.file ∨ (o.2.isOk = true ∧ ∃ xs t, write xs = .ok t ∧ o.1.file = some t)

section Commits

variable {α β : Type} {s s' : Store} {now : Moment} {o : Outcome α}

theorem Commits.refl (s : Store) (r : Except SavedError α) : Commits s (s, r) := .inl rfl

theorem Commits.of_file (h : Commits s' o) (hfile : s'.file = s.file) : Commits s o :=
  h.imp_left fun hsame => hsame.trans hfile

theorem Commits.file_of_fails (h : Commits s o) (hfail : o.2.isOk = false) :
    o.1.file = s.file := by
  rcases h with hsame | ⟨hok, -⟩
  · exact hsame
  · cases hfail.symm.trans hok

theorem Commits.map (h : Commits s o) (f : α → β) : Commits s (o.1, o.2.map f) := by
  rcases h with hsame | ⟨hok, hwritten⟩
  · exact .inl hsame
  · exact .inr ⟨(isOk_map o.2 f).trans hok, hwritten⟩

/-- All of a list is turned into a text before any of it is written. -/
theorem commits_put (s : Store) (xs : List SavedSearch) (answer : α) :
    Commits s (s.put xs answer) := by
  rw [put]
  cases hwrite : write xs with
  | error e => exact .refl s _
  | ok t => exact .inr ⟨rfl, xs, t, hwrite, rfl⟩

theorem commits_withList {f : List SavedSearch → Outcome α} (h : ∀ xs, Commits s (f xs)) :
    Commits s (s.withList now f) := by
  rw [withList]
  cases s.list now with
  | error e => exact .refl s _
  | ok xs => exact h xs

theorem commits_save (s : Store) (now : Moment) (name query filters description : Value) :
    Commits s (s.save now name query filters description) :=
  -- The id is made before the file is read, and stays made if that fails.
  have hfile : Store.file { s with made := s.made + 1 } = s.file := rfl
  (commits_withList fun _ => commits_put _ _ _).of_file hfile

theorem commits_modify (s : Store) (now : Moment) (id : Text) (f : SavedSearch → SavedSearch) :
    Commits s (s.modify now id f) := by
  apply commits_withList
  intro xs
  cases find? id xs with
  | none => exact .refl s _
  | some x => exact commits_put s _ _

theorem commits_update (s : Store) (now : Moment) (id : Text) (updates : List (Text × Value)) :
    Commits s (s.update now id updates) := by
  rw [update]
  split
  · exact commits_modify s now id _
  · exact .refl s _

theorem commits_delete (s : Store) (now : Moment) (id : Text) :
    Commits s (s.delete now id) := by
  apply commits_withList
  intro xs
  dsimp only
  split
  · exact .refl s _
  · exact commits_put s _ _

theorem commits_importText (s : Store) (now : Moment) (data : Text) (merge : Bool) :
    Commits s (s.importText now data merge) := by
  have hfile := s.incoming_file now data
  rw [importText_eq]
  generalize s.incoming now data = outcome at hfile ⊢
  obtain ⟨s₁, result⟩ := outcome
  refine Commits.of_file ?_ hfile
  cases result with
  | error e => exact .refl s₁ _
  | ok incoming =>
      dsimp only
      cases s₁.kept now merge with
      | error e => exact .refl s₁ _
      | ok current => exact commits_put s₁ _ _

end Commits

namespace Operation

def isReading : Operation → Bool
  | save _ _ _ _ | update _ _ | recordUse _ | delete _ | importText _ _ => false
  | list | get _ | frequent _ | recent _ | exported => true

def answered {α : Type} (o : Outcome α) : Outcome Unit := (o.1, o.2.map fun _ => ())

def run (s : Store) (now : Moment) : Operation → Outcome Unit
  | save name query filters description => answered (s.save now name query filters description)
  | update id updates => answered (s.update now id updates)
  | recordUse id => answered (s.recordUse now id)
  | delete id => answered (s.delete now id)
  | importText data merge => answered (s.importText now data merge)
  | list => answered (s, s.list now)
  | get id => answered (s, s.get now id)
  | frequent limit => answered (s, s.frequent now limit)
  | recent limit => answered (s, s.recent now limit)
  | exported => answered (s, s.exported now)

variable {s : Store} {now : Moment} {op : Operation}

theorem commits_run (s : Store) (now : Moment) (op : Operation) : Commits s (op.run s now) := by
  cases op with
  | save name query filters description =>
      exact (commits_save s now name query filters description).map _
  | update id updates => exact (commits_update s now id updates).map _
  | recordUse id => exact (commits_modify s now id _).map _
  | delete id => exact (commits_delete s now id).map _
  | importText data merge => exact (commits_importText s now data merge).map _
  | list | get | frequent | recent | exported => exact .refl s _

theorem run_of_isReading (h : op.isReading = true) : (op.run s now).1 = s := by
  cases op with
  | save | update | recordUse | delete | importText => cases h
  | list | get | frequent | recent | exported => rfl

/-- Whatever the file holds and whatever the arguments are, an operation that fails leaves the file
as it was, and so does one that only reads, whether or not it fails. -/
theorem file_kept (s : Store) (now : Moment) (op : Operation) :
    ((op.run s now).2.isOk = false → (op.run s now).1.file = s.file) ∧
      (op.isReading = true → (op.run s now).1.file = s.file) := by
  constructor
  · exact (commits_run s now op).file_of_fails
  · intro hreading
    rw [run_of_isReading hreading]

def uncountable : Store := { file := some "- {id: a, use_count: .inf}\n".toList }

theorem file_kept_uncountable :
    let saving := Operation.save (.text ['n']) (.text ['q']) .null .null
    ((saving.run uncountable ⟨0, by decide⟩).2.isOk = false ∧ Operation.list.isReading = true) ∧
      (saving.run uncountable ⟨0, by decide⟩).1.file = uncountable.file ∧
        (Operation.list.run uncountable ⟨0, by decide⟩).1.file = uncountable.file := by
  intro saving
  have hfails : (saving.run uncountable ⟨0, by decide⟩).2.isOk = false := by decide +kernel
  exact ⟨⟨hfails, rfl⟩, (file_kept uncountable _ saving).1 hfails,
    (file_kept uncountable _ .list).2 rfl⟩

def after (s : Store) (ops : List (Moment × Operation)) : Store :=
  ops.foldl (fun s (now, op) => (op.run s now).1) s

theorem after_cons (s : Store) (now : Moment) (op : Operation)
    (ops : List (Moment × Operation)) :
    after s ((now, op) :: ops) = after (op.run s now).1 ops := rfl

def AllIdle : Store → List (Moment × Operation) → Prop
  | _, [] => True
  | s, (now, op) :: ops =>
    (op.isReading = true ∨ (op.run s now).2.isOk = false) ∧ AllIdle (op.run s now).1 ops

theorem file_after_of_allIdle {ops : List (Moment × Operation)} (h : AllIdle s ops) :
    (after s ops).file = s.file := by
  induction ops generalizing s with
  | nil => rfl
  | cons first ops ih =>
      obtain ⟨now, op⟩ := first
      obtain ⟨hidle, hrest⟩ := h
      rw [after_cons, ih hrest]
      rcases hidle with hreads | hfails
      · rw [run_of_isReading hreads]
      · exact (commits_run s now op).file_of_fails hfails

/-- After any operations, failing or not, the file is as it was at first, or is all of what one of
them has written. -/
theorem file_after (s : Store) (ops : List (Moment × Operation)) :
    (after s ops).file = s.file ∨
      ∃ xs t, write xs = .ok t ∧ (after s ops).file = some t := by
  induction ops generalizing s with
  | nil => exact .inl rfl
  | cons first ops ih =>
      obtain ⟨now, op⟩ := first
      rw [after_cons]
      rcases ih (op.run s now).1 with hsame | hwritten
      · rcases commits_run s now op with hkept | ⟨-, xs, t, hwrite, hfile⟩
        · exact .inl (hsame.trans hkept)
        · exact .inr ⟨xs, t, hwrite, hsame.trans hfile⟩
      · exact .inr hwritten

end Operation

end VaultSearch.Saved
