import VaultSearch.Text.Basic

namespace VaultSearch.CommandLine

open Text

inductive Transport
  | sse
  | stdio
  deriving DecidableEq, Repr

def Transport.name : Transport → Text
  | sse => "sse".toList
  | stdio => "stdio".toList

def Transport.ofName? (t : Text) : Option Transport := [sse, stdio].find? (·.name = t)

structure Arguments where
  noSync : Bool := false
  transport : Transport := .sse
  deriving DecidableEq, Repr

inductive Command
  | help
  | invalid
  | serve (a : Arguments)
  deriving DecidableEq, Repr

inductive Switch
  | help
  | noSync
  | transport
  deriving DecidableEq, Repr

def Switch.name : Switch → Text
  | help => "--help".toList
  | noSync => "--no-sync".toList
  | transport => "--transport".toList

def Switch.withFront (t : Text) : List Switch :=
  [help, noSync, transport].filter fun s => startsWith t s.name

inductive Word
  | switch (s : Switch) (value : Option Text)
  | ambiguous
  | invalid
  | unknown
  deriving DecidableEq, Repr

def separator : Text := ['-', '-']

def readHelpLetters : Text → Word
  | [] => .switch .help none
  | c :: rest =>
    if c = 'h' then readHelpLetters rest
    else if c = '=' || c = '-' then .invalid
    else .switch .help none

/-- The name of a switch may be cut short as long as one switch is meant. -/
def readWord (t : Text) : Word :=
  if startsWith separator t then
    let (name, value) := match cut? ['='] t with
      | some (name, value) => (name, some value)
      | none => (t, none)
    match Switch.withFront name with
    | [] => .unknown
    | [s] => .switch s value
    | _ => .ambiguous
  else if startsWith ['-', 'h'] t then readHelpLetters (t.drop 2)
  else .unknown

/-- Reads words one after another. Words that are not known are refused at the end only, so that
help is given if it is asked for behind them. -/
def readWords (a : Arguments) (known : Bool) : List Text → Command
  | [] => if known then .serve a else .invalid
  | w :: ws =>
    if w = separator then .invalid
    else match readWord w with
      | .switch .help none => .help
      | .switch .noSync none => readWords { a with noSync := true } known ws
      | .switch .transport (some v) =>
        match Transport.ofName? v with
        | some t => readWords { a with transport := t } known ws
        | none => .invalid
      | .switch .transport none =>
        match ws with
        | [] => .invalid
        | v :: ws =>
          match Transport.ofName? v with
          | some t => readWords { a with transport := t } known ws
          | none => .invalid
      | .switch _ (some _) | .ambiguous | .invalid => .invalid
      | .unknown => readWords a false ws

def Command.read (ws : List Text) : Command :=
  if (ws.takeWhile (· ≠ separator)).any (readWord · = .ambiguous) then .invalid
  else readWords {} true ws

end VaultSearch.CommandLine
