import VaultSearch.Config
import VaultSearch.Vault.Catalog

namespace VaultSearch.Vault

open Time

structure Report where
  added : Nat := 0
  updated : Nat := 0
  deleted : Nat := 0
  documents : Nat := 0
  full : Bool := false
  finished : Moment
  error : Option Text := none

def Report.changed (r : Report) : Bool := r.added ≠ 0 || r.updated ≠ 0 || r.deleted ≠ 0

structure Keeper where
  catalog : Catalog
  /-- Seconds between runs in the background; zero for none. -/
  interval : Nat := 0
  runs : Nat := 0
  last : Option Report := none
  running : Bool := false

namespace Keeper

def make (c : Catalog) (interval : Int) : Except Text Keeper :=
  if interval < 0 then .error (intervalFault interval)
  else .ok { catalog := c, interval := interval.toNat }

def engine (k : Keeper) : Engine := k.catalog.engine

def record (k : Keeper) (c : Catalog) (r : Report) : Keeper × Report :=
  let r := { r with documents := c.engine.size }
  ({ k with catalog := c, runs := k.runs + 1, last := some r }, r)

/-- Runs now, over all notes or over those that have changed. A failure is reported. -/
def syncNow (k : Keeper) (d : Disk) (now : Moment) (full : Bool) : Keeper × Report :=
  let r : Report := { finished := now, full := full }
  if full then
    match k.catalog.reindex d with
    | (c, .ok n) => k.record c { r with added := n }
    | (c, .error e) => k.record c { r with error := some e.message }
  else
    match k.catalog.sync d with
    | (c, .ok (added, updated, deleted)) =>
      k.record c { r with added := added, updated := updated, deleted := deleted }
    | (c, .error e) => k.record c { r with error := some e.message }

def start (k : Keeper) : Keeper := if k.interval = 0 then k else { k with running := true }

def stop (k : Keeper) : Keeper := { k with running := false }

def request (k : Keeper) (d : Disk) (now : Moment) : Keeper :=
  if k.running then (k.syncNow d now false).1 else k

end Keeper

end VaultSearch.Vault
