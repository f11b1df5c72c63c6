import VaultSearch.Text.Blank
import VaultSearch.Text.Path
import VaultSearch.Time.Epoch
import VaultSearch.Time.Iso

namespace VaultSearch.Note

open Text Time Number

inductive Timestamp
  | date (d : Date)
  | stamp (s : Stamp)
  | text (t : Text)
  | seconds (n : Int)
  | fraction (x : Binary64)
  deriving DecidableEq

/-- A `Z` at the end of a timestamp stands for universal time. -/
def readStamp? (t : Text) : Option Stamp :=
  let t := trim t
  Stamp.read? (if t.getLast? = some 'Z' then t.dropLast ++ "+00:00".toList else t)

def Timestamp.moment? : Timestamp → Except TimeError (Option Moment)
  | date d => .ok (some (.ofDate d))
  | stamp s => s.toUtc.map some
  | text t => match readStamp? t with
    | none => .ok none
    | some s => s.toUtc.map some
  | seconds n => (Moment.ofEpoch n 0).map some
  | fraction x => (Moment.ofEpochFloat x).map some

structure Document where
  id : Text
  title : Text := []
  content : Text := []
  tags : List Text := []
  folder : Option Text := none
  path : Text := []
  created : Option Timestamp := none
  modified : Option Timestamp := none
  wordCount : Option Int := none
  linkCount : Option Int := none
  backlinkCount : Option Int := none
  aliases : List Text := []
  deriving DecidableEq

def countWords (t : Text) : Nat := (words t).length

/-- What follows a link at the front: two brackets, at least one character, two brackets. -/
def afterLink? : Text → Option Text
  | '[' :: '[' :: c :: t =>
    if c = ']' then none
    else match t.dropWhile (· != ']') with
      | ']' :: ']' :: rest => some rest
      | _ => none
  | _ => none

theorem afterLink?_shorter {t rest : Text} (h : afterLink? t = some rest) :
    rest.length < t.length := by
  unfold afterLink? at h
  split at h
  · split at h
    · simp at h
    · rename_i t _
      split at h
      · rename_i heq
        have hl := (List.dropWhile_sublist (l := t) (· != ']')).length_le
        rw [heq] at hl
        cases h
        simp at hl ⊢
        omega
      · simp at h
  · simp at h

def countLinks (t : Text) : Nat :=
  match t with
  | [] => 0
  | c :: u =>
    match _h : afterLink? (c :: u) with
    | some rest => countLinks rest + 1
    | none => countLinks u
  termination_by t.length
  decreasing_by
    · exact afterLink?_shorter _h
    · simp

namespace Document

def displayTitle (d : Document) : Text :=
  if !d.title.isEmpty then d.title else if !d.path.isEmpty then d.path else d.id

def effectiveFolder (d : Document) : Text :=
  match d.folder with
  | some f => if f.isEmpty then topFolder d.path else f
  | none => topFolder d.path

def body (d : Document) : Text := d.title ++ ' ' :: d.content

end Document

end VaultSearch.Note
