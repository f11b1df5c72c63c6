import VaultSearch.CommandLine.Arguments
import VaultSearch.Server

namespace VaultSearch.CommandLine

inductive Address
  | stdio
  | sse (host : Text) (listenPort : Int)
  deriving DecidableEq, Repr

def anyHost : Text := "0.0.0.0".toList

def Transport.address (t : Transport) (c : Config) : Address :=
  match t with
  | stdio => .stdio
  | sse => .sse anyHost c.listenPort

inductive Ending
  | done
  | interrupted
  | failed
  deriving DecidableEq, Repr

structure Serving where
  address : Address
  documents : Nat
  background : Bool
  deriving DecidableEq, Repr

structure Session where
  exitCode : Option Nat := none
  serving : Option Serving := none
  background : Bool := false
  deriving DecidableEq, Repr

def badUsage : Nat := 2

def failure : Nat := 1

def Ending.exitCode : Ending → Option Nat
  | failed => some failure
  | _ => none

def background (a : Arguments) (s : Server) : Bool :=
  match s.source with
  | .documents _ => false
  | .vault k => (if a.noSync then k else k.start).running

def backgroundAfter (s : Server) : Bool :=
  match s.source with
  | .documents _ => false
  | .vault k => k.stop.running

def session (ws : List Text) (env : Environment) (d : Vault.Disk) (ending : Ending) :
    Except ConfigError Session :=
  match Command.read ws with
  | .help => .ok { exitCode := some 0 }
  | .invalid => .ok { exitCode := some badUsage }
  | .serve a =>
    match Config.ofEnvironment env with
    | .error .noHome => .error .noHome
    | .error _ => .ok { exitCode := some badUsage }
    | .ok c =>
      match Server.ofConfig c d with
      | .error _ => .ok { exitCode := some failure }
      | .ok s => .ok {
        exitCode := ending.exitCode
        serving := some ⟨a.transport.address c, s.engine.size, background a s⟩
        background := backgroundAfter s }

end VaultSearch.CommandLine
