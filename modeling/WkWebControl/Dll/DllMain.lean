import Mathlib.Data.List.Forall2
import WkWebControl.Dll.Launches

open Streams

namespace WebControl.Dll

structure Config where
  enabled : Bool
  checkWaVersion : Bool
  mutexEnabled : Bool
  port : Int

structure Process where
  /-- The keys that `wkWebControl.ini` has in its section. -/
  ini : String → Option Int
  /-- The mutex of `CreateMutexA`, if there is one, and whether it was there before. -/
  mutex : Option Bool
  /-- The main module with detours in place at these addresses. -/
  mapped : List UInt32 → Option Image
  /-- The trampoline that PolyHook makes for a function, if it can. -/
  polyHook : String → UInt32 → Option UInt64
  callPosition : String → String

structure Detour where
  name : String
  target : UInt32
  trampoline : UInt64

structure Plugin where
  hooks : Hooks := {}
  detours : List Detour := []
  /-- The `orig…` pointers. -/
  originals : String → UInt32 := fun _ => 0
  /-- The port of the IPC server, if it is running. -/
  server : Option UInt16 := none
  messageBox : Option String := none
  cacheFile : Option Text

/-- A part of `install`: it may throw, and what it has done by then stays. -/
abbrev Installing : Type → Type := ExceptT String (StateM Plugin)

namespace Config

def iniInt (ini : String → Option Int) (key : String) (default : Int) : Int := (ini key).getD default

def readConfig (ini : String → Option Int) : Config where
  enabled := iniInt ini "Enabled" 1 ≠ 0
  checkWaVersion := iniInt ini "CheckWaVersion" 1 ≠ 0
  mutexEnabled := iniInt ini "Mutex" 1 ≠ 0
  port := iniInt ini "Port" 27099

-- the version is not read yet
def waVersionCheck (c : Config) : Bool := if c.checkWaVersion then true else true

def lockCurrentInstance (c : Config) (mutex : Option Bool) : Bool :=
  if c.mutexEnabled then
    match mutex with
    | none => false
    | some existed => !existed
  else true

end Config

namespace Process

variable (wa : Process)

def config : Config := Config.readConfig wa.ini

def request (name : String) (signature : Signature) : ScanRequest where
  name
  signature
  line := some (wa.callPosition name)

def scanPattern (name : String) (signature : Signature) : Installing UInt32 := fun p =>
  let (answer, hooks) :=
    Hooks.scanPattern (wa.mapped (p.detours.map (·.target))) p.hooks (wa.request name signature)
  (answer, { p with hooks })

def hook (name : String) (pTarget : UInt32) : Installing Unit := do
  if pTarget = 0 then
    throw ("Hook '" ++ name ++ "' has null target address (pattern scan failed?) at " ++ wa.callPosition name)
  match wa.polyHook name pTarget with
  | none => throw ("Failed to install hook '" ++ name ++ "' at " ++ wa.callPosition name)
  | some trampoline =>
    modify fun p => { p with
      originals := Function.update p.originals name trampoline.toUInt32
      detours := p.detours ++ [⟨name, pTarget, trampoline⟩] }

end Process

namespace W2App

def initializeW2App : Signature where
  pattern := [
    0x6a, 0xff, 0x64, 0xa1, 0x00, 0x00, 0x00, 0x00, 0x68, 0x00, 0x00, 0x00, 0x00, 0x50, 0x64, 0x89, 0x25, 0x00, 0x00,
    0x00, 0x00, 0x53, 0x8b, 0x5c, 0x24, 0x1c, 0x55, 0x8b, 0x6c, 0x24, 0x1c, 0x56, 0x8b, 0x74, 0x24, 0x1c, 0x33, 0xc0,
    0x89, 0x86, 0x00, 0x00, 0x00, 0x00, 0x89, 0x44, 0x24, 0x14, 0x89, 0x86, 0x00, 0x00, 0x00, 0x00, 0x8b, 0xc7, 0xc7,
    0x06, 0x00, 0x00, 0x00, 0x00, 0x89, 0x9e, 0x00, 0x00, 0x00, 0x00, 0x89, 0xae, 0x00, 0x00, 0x00, 0x00, 0xe8, 0x00,
    0x00, 0x00, 0x00]
  mask := "????????x????xxxx????xxxxxxxxxxxxxxxxxxx????xxxxxx????xxxx????xx????xx????x????".toList
  covers := by decide +kernel

def constructGameGlobal : Signature where
  pattern := [
    0x6a, 0xff, 0x68, 0x00, 0x00, 0x00, 0x00, 0x64, 0xa1, 0x00, 0x00, 0x00, 0x00, 0x50, 0x64, 0x89, 0x25, 0x00, 0x00,
    0x00, 0x00, 0x83, 0xec, 0x24, 0x53, 0x55, 0x8b, 0x6c, 0x24, 0x3c, 0x8b, 0x85, 0x00, 0x00, 0x00, 0x00, 0x8b, 0x48,
    0x24]
  mask := "???????xx????xxxx????xxxxxxxxxxx????xxx".toList
  covers := by decide +kernel

def destroyGameGlobal : Signature where
  pattern := [
    0x6a, 0xff, 0x68, 0x00, 0x00, 0x00, 0x00, 0x64, 0xa1, 0x00, 0x00, 0x00, 0x00, 0x50, 0x64, 0x89, 0x25, 0x00, 0x00,
    0x00, 0x00, 0x51, 0x56, 0x8b, 0xf1, 0x89, 0x74, 0x24, 0x04, 0xc7, 0x06, 0x00, 0x00, 0x00, 0x00, 0x8b, 0xc6, 0xc7,
    0x44, 0x24, 0x00, 0x00, 0x00, 0x00, 0x00, 0xe8, 0x00, 0x00, 0x00, 0x00, 0xa1, 0x00, 0x00, 0x00, 0x00, 0x83, 0x78,
    0x5c, 0x00, 0x75, 0x07, 0x8b, 0xc6, 0xe8, 0x00, 0x00, 0x00, 0x00, 0x8b, 0xc6, 0xe8, 0x00, 0x00, 0x00, 0x00, 0x8b,
    0x86, 0x00, 0x00, 0x00, 0x00, 0x85, 0xc0, 0x74, 0x09, 0x50, 0xe8, 0x00, 0x00, 0x00, 0x00, 0x83, 0xc4, 0x04]
  mask :=
    "???????xx????xxxx????xxxxxxxxxx????xxxxx?????x????x????xxxxxxxxx????xxx????xx????xxxxxx????xxx".toList
  covers := by decide +kernel

def install (wa : Process) : Installing Unit := do
  let addrInitializeW2App ← wa.scanPattern "InitializeW2App" initializeW2App
  let addrConstructGameGlobal ← wa.scanPattern "ConstructGameGlobal" constructGameGlobal
  let addrDestroyGameGlobal ← wa.scanPattern "DestroyGameGlobal" destroyGameGlobal
  wa.hook "InitializeW2App" addrInitializeW2App
  wa.hook "ConstructGameGlobal" addrConstructGameGlobal
  wa.hook "DestroyGameGlobal" addrDestroyGameGlobal

end W2App

namespace CTaskTurnGame

def turnHandleMessage : Signature where
  pattern := [
    0x55, 0x8b, 0xec, 0x83, 0xe4, 0xf8, 0x81, 0xec, 0x00, 0x00, 0x00, 0x00, 0x53, 0x8b, 0x5d, 0x0c, 0x56, 0x8d, 0x43,
    0xfe, 0x83, 0xf8, 0x7b, 0x57, 0x8b, 0xf1, 0x0f, 0x87, 0x00, 0x00, 0x00, 0x00, 0x0f, 0xb6, 0x80, 0x00, 0x00, 0x00,
    0x00, 0xff, 0x24, 0x85, 0x00, 0x00, 0x00, 0x00, 0x8b, 0x86, 0x00, 0x00, 0x00, 0x00]
  mask := "??????xx????xxxxxxxxxxxxxxxx????xxx????xxx????xx????".toList
  covers := by decide +kernel

def install (wa : Process) : Installing Unit := do
  let addrTurnHandleMessage ← wa.scanPattern "CTurnGameHandleMessage" turnHandleMessage
  wa.hook "TurnHandleMessage" addrTurnHandleMessage

end CTaskTurnGame

namespace IpcServer

def install (c : Config) : Installing Unit :=
  modify fun p => if p.server.isSome then p else { p with server := some (UInt16.ofInt c.port) }

def stop (p : Plugin) : Plugin := { p with server := none }

end IpcServer

namespace Plugin

-- neither the teams nor the worms need a hook, and `ControlHooks::install` only logs
def install (wa : Process) : Installing Unit := do
  W2App.install wa
  CTaskTurnGame.install wa
  IpcServer.install wa.config

def cleanup (p : Plugin) : Plugin := { p with detours := [] }

inductive Reason where
  | processAttach
  | processDetach

def dllMain (wa : Process) (p : Plugin) : Reason → Plugin
  | .processAttach =>
    if wa.config.enabled && wa.config.waVersionCheck && wa.config.lockCurrentInstance wa.mutex then
      match install wa { p with hooks := p.hooks.loadOffsets p.cacheFile } with
      | (.ok _, p) => { p with cacheFile := p.hooks.saveOffsets p.cacheFile }
      | (.error what, p) => { p with messageBox := some what }.cleanup
    else p
  | .processDetach => (IpcServer.stop p).cleanup

end Plugin

namespace Installing

variable {α β : Type} {x : Installing α} {p : Plugin} {returns : α → Plugin → Prop} {throws : Plugin → Prop}

def Ensures (x : Installing α) (p : Plugin) (returns : α → Plugin → Prop) (throws : Plugin → Prop) : Prop :=
  match x p with
  | (.ok a, q) => returns a q
  | (.error _, q) => throws q

theorem Ensures.bind {f : α → Installing β} {done : β → Plugin → Prop} (first : x.Ensures p returns throws)
    (rest : ∀ a q, returns a q → (f a).Ensures q done throws) : (x >>= f).Ensures p done throws := by
  unfold Ensures at first
  have steps : (x >>= f) p = match x p with
      | (.ok a, q) => f a q
      | (.error what, q) => (.error what, q) := by
    change ExceptT.bindCont f (x p).1 (x p).2 = _
    rcases x p with ⟨answer, q⟩
    cases answer <;> rfl
  unfold Ensures
  rw [steps]
  split at first
  · exact rest _ _ first
  · exact first

theorem Ensures.mono {done : α → Plugin → Prop} {failed : Plugin → Prop} (first : x.Ensures p returns throws)
    (rest : ∀ a q, returns a q → done a q) (fails : ∀ q, throws q → failed q) : x.Ensures p done failed := by
  unfold Ensures at first ⊢
  split at first
  · exact rest _ _ first
  · exact fails _ first

end Installing

structure Site where
  function : String
  name : String
  signature : Signature

namespace Site

def w2App : Site := ⟨"InitializeW2App", "InitializeW2App", W2App.initializeW2App⟩
def construct : Site := ⟨"ConstructGameGlobal", "ConstructGameGlobal", W2App.constructGameGlobal⟩
def destroy : Site := ⟨"DestroyGameGlobal", "DestroyGameGlobal", W2App.destroyGameGlobal⟩
def turn : Site := ⟨"TurnHandleMessage", "CTurnGameHandleMessage", CTaskTurnGame.turnHandleMessage⟩

end Site

def sites : List Site := [.w2App, .construct, .destroy, .turn]

def signatureOf (name : String) : Signature :=
  ((sites.find? (·.name = name)).map (·.signature)).getD ⟨[], [], Nat.le_refl 0⟩

theorem signatureOf_site : ∀ s ∈ sites, s.signature = signatureOf s.name := by
  simp [sites, signatureOf, Site.w2App, Site.construct, Site.destroy, Site.turn]

theorem storable_site : ∀ s ∈ sites, Storable s.name := by
  have names : ∀ name ∈ sites.map (·.name), Storable name := by decide +kernel
  exact fun s member => names s.name (List.mem_map_of_mem member)

open PatternScanner

/-- The detour of a function leads away from where its signature first occurs, and the way back is set. -/
structure Placed (wa : Process) (image : Image) (originals : String → UInt32) (s : Site) (d : Detour) : Prop where
  name : d.name = s.function
  target : FirstAt s.signature image d.target
  trampoline : wa.polyHook s.function d.target = some d.trampoline
  original : originals s.function = d.trampoline.toUInt32

theorem findInMainModule_firstAt {image : Image} {signature : Signature} {a : UInt32}
    (first : FirstAt signature image a) : findInMainModule (some image) signature = a := by
  obtain ⟨i, here, occurs, least⟩ := first
  rcases findInMainModule_cases image signature with ⟨-, nowhere⟩ | ⟨-, j, there, occurs_, least_⟩
  · exact absurd occurs (nowhere i)
  · have same : i = j := by
      rcases Nat.lt_trichotomy i j with before | same | after
      · exact absurd occurs (least_ i before)
      · exact same
      · exact absurd occurs_ (least j after)
    apply UInt32.toNat.inj
    rw [here, there, same]

section Stages

variable {wa : Process} {image : Image} {file : Option Text}

structure Stage (wa : Process) (image : Image) (file : Option Text) (scans : List ScanRequest) (hooked : List Site)
    (p : Plugin) : Prop where
  hooks : p.hooks = Hooks.scanned (some image) scans (Hooks.loadOffsets file {})
  detours : List.Forall₂ (Placed wa image p.originals) hooked p.detours
  server : p.server = none
  messageBox : p.messageBox = none
  cacheFile : p.cacheFile = file

structure Failed (file : Option Text) (p : Plugin) : Prop where
  server : p.server = none
  cacheFile : p.cacheFile = file

def Trusted (image : Image) (file : Option Text) : Prop :=
  ∃ launches, (∀ l ∈ launches, Hooks.OneBuild (some image) signatureOf l) ∧ Hooks.cacheAfter launches none = file

theorem scanPattern_congr {image other : Option Image} {r : ScanRequest}
    (same : findInMainModule image r.signature = findInMainModule other r.signature) (h : Hooks) :
    Hooks.scanPattern image h r = Hooks.scanPattern other h r := by
  unfold Hooks.scanPattern
  rw [same]

def Requests (scans : List ScanRequest) : Prop := ∀ r ∈ scans, r.signature = signatureOf r.name

/-- Each signature occurs in WA.exe, and PolyHook can hook what stands there. -/
def Process.Hookable (wa : Process) (image : Image) : Prop :=
  ∀ s ∈ sites, ∃ a, FirstAt s.signature image a ∧ (wa.polyHook s.function a).isSome

theorem scan_ensures (trusted : Trusted image file) {scans : List ScanRequest} (own : Requests scans)
    {hooked : List Site} {p : Plugin} (stage : Stage wa image file scans hooked p) {s : Site} (site : s ∈ sites)
    (undisturbed : findInMainModule (wa.mapped (p.detours.map (·.target))) s.signature =
      findInMainModule (some image) s.signature) :
    (wa.scanPattern s.name s.signature).Ensures p
      (fun a q => FirstAt s.signature image a ∧
        Stage wa image file (scans ++ [wa.request s.name s.signature]) hooked q)
      (fun q => ¬ wa.Hookable image ∧ Failed file q) := by
  obtain ⟨launches, build, rfl⟩ := trusted
  have uncached := Hooks.scanPattern_oneBuild build own
    (r := wa.request s.name s.signature) (signatureOf_site s site)
  have next : Hooks.scanned (some image) (scans ++ [wa.request s.name s.signature])
      (Hooks.loadOffsets (Hooks.cacheAfter launches none) {}) =
        (Hooks.scanPattern (some image) p.hooks (wa.request s.name s.signature)).2 := by
    rw [Hooks.scanned, List.foldl_append, stage.hooks]
    rfl
  rw [← stage.hooks] at uncached
  have answer : Hooks.scanPattern (wa.mapped (p.detours.map (·.target))) p.hooks
      (wa.request s.name s.signature) = (Hooks.uncached (some image) (wa.request s.name s.signature),
        Hooks.scanned (some image) (scans ++ [wa.request s.name s.signature])
          (Hooks.loadOffsets (Hooks.cacheAfter launches none) {})) :=
    (scanPattern_congr undisturbed p.hooks).trans (Prod.ext uncached next.symm)
  unfold Installing.Ensures Process.scanPattern
  rw [answer]
  rcases findInMainModule_cases image s.signature with ⟨zero, nowhere⟩ | ⟨found, first⟩
  · rw [show Hooks.uncached (some image) (wa.request s.name s.signature) = _ from if_pos zero]
    refine ⟨fun hookable => ?_, stage.server, stage.cacheFile⟩
    obtain ⟨a, ⟨i, -, occurs, -⟩, -⟩ := hookable s site
    exact nowhere i occurs
  · rw [show Hooks.uncached (some image) (wa.request s.name s.signature) = _ from if_neg found]
    exact ⟨first, rfl, stage.detours, stage.server, stage.messageBox, stage.cacheFile⟩

theorem hook_ensures {scans : List ScanRequest} {hooked : List Site} {p : Plugin}
    (stage : Stage wa image file scans hooked p) {s : Site} (site : s ∈ sites) {a : UInt32}
    (first : FirstAt s.signature image a) (new : ∀ t ∈ hooked, t.function ≠ s.function) :
    (wa.hook s.function a).Ensures p
      (fun _ q => (∃ a, FirstAt s.signature image a ∧ (wa.polyHook s.function a).isSome) ∧
        Stage wa image file scans (hooked ++ [s]) q)
      (fun q => ¬ wa.Hookable image ∧ Failed file q) := by
  have found : a ≠ 0 := by
    rintro rfl
    obtain ⟨i, here, -⟩ := first
    have base := image.base_pos
    have zero : (0 : UInt32).toNat = 0 := rfl
    omega
  unfold Process.hook
  rw [if_neg found]
  cases made : wa.polyHook s.function a with
  | none =>
    refine ⟨fun hookable => ?_, stage.server, stage.cacheFile⟩
    obtain ⟨b, there, hooks⟩ := hookable s site
    rw [← findInMainModule_firstAt there, findInMainModule_firstAt first, made] at hooks
    cases hooks
  | some trampoline =>
    have hooks : (wa.polyHook s.function a).isSome := by rw [made]; rfl
    refine ⟨⟨a, first, hooks⟩, stage.hooks, ?_, stage.server, stage.messageBox, stage.cacheFile⟩
    apply List.rel_append
    · refine ((List.forall₂_and_left _ _).mpr ⟨new, stage.detours⟩).imp fun t d ⟨other, placed⟩ => ?_
      refine ⟨placed.name, placed.target, placed.trampoline, ?_⟩
      exact (Function.update_of_ne other ..).trans placed.original
    · exact .cons ⟨rfl, first, made, Function.update_self ..⟩ .nil

/-- The detours of `W2App::install` leave what the last scan looks for as it was. -/
def Process.Undisturbed (wa : Process) : Prop :=
  findInMainModule (wa.mapped ((sites.take 3).map fun s => findInMainModule (wa.mapped []) s.signature))
      CTaskTurnGame.turnHandleMessage =
    findInMainModule (wa.mapped []) CTaskTurnGame.turnHandleMessage

def Process.requests (wa : Process) : List ScanRequest := sites.map fun s => wa.request s.name s.signature

theorem requests_own (wa : Process) : Requests wa.requests := by
  intro r member
  obtain ⟨s, site, rfl⟩ := List.mem_map.mp member
  exact signatureOf_site s site

structure Installed (wa : Process) (image : Image) (p : Plugin) : Prop where
  detours : List.Forall₂ (Placed wa image p.originals) sites p.detours
  server : p.server = some (UInt16.ofInt wa.config.port)
  messageBox : p.messageBox = none

theorem Stage.targets {scans : List ScanRequest} {hooked : List Site} {p : Plugin}
    (stage : Stage wa image file scans hooked p) :
    p.detours.map (·.target) = hooked.map fun s => findInMainModule (some image) s.signature := by
  have placed := stage.detours
  clear stage
  generalize p.detours = detours at placed ⊢
  induction placed with
  | nil => rfl
  | cons here _ ih => rw [List.map_cons, List.map_cons, ih, findInMainModule_firstAt here.target]

section Install

variable (trusted : Trusted image file) (mapped : wa.mapped [] = some image)

include trusted mapped

theorem scan_first {scans : List ScanRequest} (own : Requests scans) {p : Plugin}
    (stage : Stage wa image file scans [] p) {s : Site} (site : s ∈ sites) :
    (wa.scanPattern s.name s.signature).Ensures p
      (fun a q => FirstAt s.signature image a ∧ Stage wa image file (scans ++ [wa.request s.name s.signature]) [] q)
      (fun q => ¬ wa.Hookable image ∧ Failed file q) := by
  apply scan_ensures trusted own stage site
  rw [List.forall₂_nil_left_iff.mp stage.detours]
  exact congrArg (findInMainModule · s.signature) mapped

theorem w2App_ensures {p : Plugin} (stage : Stage wa image file [] [] p) :
    (W2App.install wa).Ensures p
      (fun _ q => Stage wa image file (wa.requests.take 3) (sites.take 3) q ∧
        ∀ s ∈ sites.take 3, ∃ a, FirstAt s.signature image a ∧ (wa.polyHook s.function a).isSome)
      (fun q => ¬ wa.Hookable image ∧ Failed file q) := by
  have among (n : Nat) : Requests (wa.requests.take n) :=
    fun r member => requests_own wa r (List.mem_of_mem_take member)
  have initial : Site.w2App ∈ sites := .head _
  have constructed : Site.construct ∈ sites := .tail _ (.head _)
  have destroyed : Site.destroy ∈ sites := .tail _ (.tail _ (.head _))
  unfold W2App.install
  refine (scan_first trusted mapped (among 0) stage initial).bind fun a p ⟨atA, stage⟩ => ?_
  refine (scan_first trusted mapped (among 1) stage constructed).bind fun b p ⟨atB, stage⟩ => ?_
  refine (scan_first trusted mapped (among 2) stage destroyed).bind fun c p ⟨atC, stage⟩ => ?_
  refine (hook_ensures stage initial atA (by decide)).bind fun _ p ⟨takenA, stage⟩ => ?_
  refine (hook_ensures stage constructed atB (by decide)).bind fun _ p ⟨takenB, stage⟩ => ?_
  refine (hook_ensures stage destroyed atC (by decide)).mono (fun _ p ⟨takenC, stage⟩ => ⟨stage, ?_⟩)
    fun _ failed => failed
  intro s member
  rcases List.mem_cons.mp member with rfl | member
  · exact takenA
  · rcases List.mem_cons.mp member with rfl | member
    · exact takenB
    · rw [List.mem_singleton.mp member]
      exact takenC

theorem turnGame_ensures (undisturbed : wa.Undisturbed) {p : Plugin}
    (stage : Stage wa image file (wa.requests.take 3) (sites.take 3) p) :
    (CTaskTurnGame.install wa).Ensures p
      (fun _ q => (∃ a, FirstAt Site.turn.signature image a ∧ (wa.polyHook Site.turn.function a).isSome) ∧
        Stage wa image file wa.requests sites q)
      (fun q => ¬ wa.Hookable image ∧ Failed file q) := by
  have site : Site.turn ∈ sites := .tail _ (.tail _ (.tail _ (.head _)))
  have same : findInMainModule (wa.mapped (p.detours.map (·.target))) Site.turn.signature =
      findInMainModule (some image) Site.turn.signature := by
    unfold Process.Undisturbed at undisturbed
    rw [mapped] at undisturbed
    rw [stage.targets]
    exact undisturbed
  unfold CTaskTurnGame.install
  have own : Requests (wa.requests.take 3) := fun r member => requests_own wa r (List.mem_of_mem_take member)
  exact (scan_ensures trusted own stage site same).bind
    fun a p ⟨first, stage⟩ => hook_ensures stage site first (by decide)

theorem install_ensures (undisturbed : wa.Undisturbed) {p : Plugin} (stage : Stage wa image file [] [] p) :
    (Plugin.install wa).Ensures p
      (fun _ q => wa.Hookable image ∧ Installed wa image q ∧
        q.hooks = Hooks.scanned (some image) wa.requests (Hooks.loadOffsets file {}) ∧ q.cacheFile = file)
      (fun q => ¬ wa.Hookable image ∧ Failed file q) := by
  unfold Plugin.install
  refine (w2App_ensures trusted mapped stage).bind fun _ p ⟨stage, taken⟩ => ?_
  refine (turnGame_ensures trusted mapped undisturbed stage).bind fun _ p ⟨last, stage⟩ => ?_
  have off : p.server.isSome = false := by rw [stage.server]; rfl
  have started : IpcServer.install wa.config p =
      (.ok (), { p with server := some (UInt16.ofInt wa.config.port) }) := by
    change (_, if p.server.isSome then p else _) = _
    rw [off]
    rfl
  unfold Installing.Ensures
  rw [started]
  refine ⟨fun s site => ?_, ⟨stage.detours, rfl, stage.messageBox⟩, stage.hooks, stage.cacheFile⟩
  rw [show sites = sites.take 3 ++ [Site.turn] from rfl] at site
  rcases List.mem_append.mp site with early | turn
  · exact taken s early
  · rw [List.mem_singleton.mp turn]
    exact last

end Install

def Process.starts (wa : Process) : Bool :=
  wa.config.enabled && wa.config.waVersionCheck && wa.config.lockCurrentInstance wa.mutex

theorem install_scanned {image : Option Image} {scans : List ScanRequest} {h : Hooks}
    (answered : ∀ earlier r rest, scans = earlier ++ r :: rest →
      ∃ a, (Hooks.scanPattern image (Hooks.scanned image earlier h) r).1 = .ok a) :
    Hooks.install image scans h = (true, Hooks.scanned image scans h) := by
  induction scans generalizing h with
  | nil => rfl
  | cons r scans ih =>
    obtain ⟨a, first⟩ := answered [] r scans rfl
    change (Hooks.scanPattern image h r).1 = .ok a at first
    have step : Hooks.scanPattern image h r = (.ok a, (Hooks.scanPattern image h r).2) := Prod.ext first rfl
    rw [Hooks.install, step]
    apply ih
    intro earlier s rest split
    exact answered (r :: earlier) s rest (congrArg (r :: ·) split)

theorem dllMain_done {l : Hooks.Launch} {h : Hooks}
    (done : Hooks.install l.image l.scans (Hooks.loadOffsets (l.cacheFile file) {}) = (true, h))
    (hooked : l.hooked = true) : Hooks.dllMain l file = Hooks.saveOffsets h (l.cacheFile file) := by
  unfold Hooks.dllMain
  rw [done, hooked]
  rfl

theorem Trusted.launch {image : Image} {file : Option Text} (trusted : Trusted image file) {l : Hooks.Launch}
    (build : Hooks.OneBuild (some image) signatureOf l) : Trusted image (Hooks.dllMain l file) := by
  obtain ⟨launches, builds, rfl⟩ := trusted
  refine ⟨launches ++ [l], fun m member => ?_, ?_⟩
  · rcases List.mem_append.mp member with before | last
    · exact builds m before
    · rw [List.mem_singleton.mp last]
      exact build
  · rw [Hooks.cacheAfter, List.foldl_append]
    rfl

theorem Trusted.saved (trusted : Trusted image file) (hookable : wa.Hookable image) :
    Trusted image (Hooks.saveOffsets
      (Hooks.scanned (some image) wa.requests (Hooks.loadOffsets file {})) file) := by
  have build : Hooks.OneBuild (some image) signatureOf { image := some image, scans := wa.requests } := by
    refine ⟨rfl, rfl, fun r member => ⟨?_, requests_own wa r member⟩⟩
    obtain ⟨s, site, rfl⟩ := List.mem_map.mp member
    exact storable_site s site
  have done : Hooks.install (some image) wa.requests (Hooks.loadOffsets file {}) =
      (true, Hooks.scanned (some image) wa.requests (Hooks.loadOffsets file {})) := by
    apply install_scanned
    intro earlier r rest split
    have member : r ∈ wa.requests := by simp [split]
    have own : Requests earlier := fun s early => requests_own wa s (by simp [split, early])
    obtain ⟨launches, builds, rfl⟩ := trusted
    rw [Hooks.scanPattern_oneBuild builds own (requests_own wa r member)]
    obtain ⟨s, site, rfl⟩ := List.mem_map.mp member
    obtain ⟨a, first, -⟩ := hookable s site
    refine ⟨a, ?_⟩
    rcases findInMainModule_cases image s.signature with ⟨-, nowhere⟩ | ⟨found, -⟩
    · obtain ⟨i, -, occurs, -⟩ := first
      exact absurd occurs (nowhere i)
    · rw [← findInMainModule_firstAt first]
      exact if_neg found
  have kept := trusted.launch build
  rw [dllMain_done done rfl] at kept
  exact kept

/-- Nothing of the plugin is left in the process, and a message says so if it has tried to start. -/
structure Absent (wa : Process) (p : Plugin) : Prop where
  detours : p.detours = []
  server : p.server = none
  messageBox : p.messageBox.isSome = wa.starts

theorem attach_cases (trusted : Trusted image file) (mapped : wa.mapped [] = some image)
    (undisturbed : wa.Undisturbed) :
    let p := Plugin.dllMain wa { cacheFile := file } .processAttach
    Trusted image p.cacheFile ∧
      (wa.starts = true ∧ wa.Hookable image ∧ Installed wa image p ∨
        ¬ (wa.starts = true ∧ wa.Hookable image) ∧ Absent wa p) := by
  by_cases starts : wa.starts = true
  · have stage : Stage wa image file [] [] { hooks := Hooks.loadOffsets file {}, cacheFile := file } :=
      ⟨rfl, .nil, rfl, rfl, rfl⟩
    have installs := install_ensures trusted mapped undisturbed stage
    have attached : Plugin.dllMain wa { cacheFile := file } .processAttach =
        match Plugin.install wa { hooks := Hooks.loadOffsets file {}, cacheFile := file } with
        | (.ok _, p) => { p with cacheFile := p.hooks.saveOffsets p.cacheFile }
        | (.error what, p) => { p with messageBox := some what }.cleanup := if_pos starts
    unfold Installing.Ensures at installs
    rw [attached]
    split at installs
    · rename_i p ended
      obtain ⟨hookable, installed, hooks, cacheFile⟩ := installs
      rw [ended]
      refine ⟨?_, .inl ⟨starts, hookable, installed.detours, installed.server, installed.messageBox⟩⟩
      change Trusted image (p.hooks.saveOffsets p.cacheFile)
      rw [hooks, cacheFile]
      exact trusted.saved hookable
    · rename_i p threw
      obtain ⟨not_, failed⟩ := installs
      rw [threw]
      refine ⟨?_, .inr ⟨fun both => not_ both.2, rfl, failed.server, starts.symm⟩⟩
      exact failed.cacheFile ▸ trusted
  · have untouched : Plugin.dllMain wa { cacheFile := file } .processAttach = { cacheFile := file } := if_neg starts
    rw [untouched]
    exact ⟨trusted, .inr ⟨fun both => starts both.1, rfl, rfl, (Bool.eq_false_iff.mpr starts).symm⟩⟩

def cacheLeft (past : List Process) : Option Text :=
  past.foldl (fun file wa => (Plugin.dllMain wa { cacheFile := file } .processAttach).cacheFile) none

theorem cacheLeft_trusted {past : List Process}
    (build : ∀ wa ∈ past, wa.mapped [] = some image ∧ wa.Undisturbed) : Trusted image (cacheLeft past) := by
  induction past using List.reverseRecOn with
  | nil => exact ⟨[], fun l member => absurd member List.not_mem_nil, rfl⟩
  | append_singleton past wa ih =>
    have before := ih fun other member => build other (List.mem_append_left _ member)
    obtain ⟨mapped, undisturbed⟩ := build wa (List.mem_append_right _ List.mem_cons_self)
    rw [cacheLeft, List.foldl_append]
    exact (attach_cases before mapped undisturbed).1

end Stages

def program : List UInt8 :=
  W2App.initializeW2App.pattern ++ W2App.constructGameGlobal.pattern ++ W2App.destroyGameGlobal.pattern ++
    CTaskTurnGame.turnHandleMessage.pattern

def jumpAt (bytes : List UInt8) (target : UInt32) : List UInt8 :=
  let at_ := (target - 0x400000).toNat
  ((((bytes.set at_ 0xe9).set (at_ + 1) 0).set (at_ + 2) 0).set (at_ + 3) 0).set (at_ + 4) 0

theorem length_jumps (targets : List UInt32) (bytes : List UInt8) :
    (targets.foldl jumpAt bytes).length = bytes.length := by
  induction targets generalizing bytes with
  | nil => rfl
  | cons a targets ih => simp [ih, jumpAt]

def plugged : Process where
  ini _ := none
  mutex := some false
  mapped targets := some (Hooks.wa (targets.foldl jumpAt program) (by rw [length_jumps]; decide +kernel))
  polyHook _ target := some (0x1000000 + target.toUInt64)
  callPosition name := name

end WebControl.Dll
