import Mathlib.Data.List.TakeWhile
import WkWebControl.Backend.Broadcaster
import WkWebControl.Paths

open WebControl
open Paths (FileSystem Path)
open Effects (Program)
open Python (isSpace lower lowerChar strip)

namespace WebControl.Backend

structure Settings where
  frontendDist : String := "../frontend/dist"
  authEmailHeader : String := "X-Auth-Email"

abbrev Headers := List (List UInt8 × List UInt8)

def latin1 (bytes : List UInt8) : String := String.ofList (bytes.map fun b => Char.ofNat b.toNat)

/-- `c.lower().encode("latin-1")`. Of the characters beyond Latin-1 four have a small letter in it. -/
def lowerLatin1? (c : Char) : Option UInt8 :=
  if c.toNat < 256 then some (UInt8.ofNat (lowerChar c).toNat)
  else if c.toNat = 0x178 then some 0xff
  else if c.toNat = 0x1e9e then some 0xdf
  else if c.toNat = 0x212a then some 0x6b
  else if c.toNat = 0x212b then some 0xe5
  else none

/-- The key under which `Headers` looks a name up; `none` for the `UnicodeEncodeError`. -/
def headerKey? (name : String) : Option (List UInt8) := name.toList.mapM lowerLatin1?

def Headers.first (headers : Headers) (key : List UInt8) : Option String :=
  (headers.find? (·.1 == key)).map fun header => latin1 header.2

inductive Identity where
  | refused
  | accepted (email : String)
  /-- The handler ends with an exception. -/
  | raised
  deriving DecidableEq

def httpHeader : String := "X-Auth-Email"

/-- `require_email`; refused is 401. -/
def requireEmail (headers : Headers) : Identity :=
  match headerKey? httpHeader with
  | none => .raised
  | some key =>
    match headers.first key with
    | none => .refused
    | some value => if value = "" then .refused else .accepted (lower (strip value))

def socketUser (settings : Settings) (headers : Headers) : Option User :=
  (headerKey? settings.authEmailHeader).map fun key => .ofHeader ((headers.first key).getD "")

def entering (u : User) (_ : Unit) : (e : Effect) → Option (Answer e × Unit)
  | .acceptSocket => some (u, ())
  | _ => none

def watching (u : User) (_ : Unit) : (e : StateEffect) → Option (StateAnswer e × Unit)
  | .backend .acceptSocket => some (u, ())
  | .addClient _ => some ((), ())
  | .sendLatest _ => some (true, ())
  | _ => none

/-- What `control` makes of the headers: it goes into its loop, or it closes the socket. -/
def controlIdentity (settings : Settings) (headers : Headers) : Identity :=
  match socketUser settings headers with
  | none => .raised
  | some u =>
    match openControl.exec (entering u) () with
    | some (.control v _, _) => .accepted v.email
    | _ => .refused

def stateIdentity (settings : Settings) (headers : Headers) (n : Nat) : Identity :=
  match socketUser settings headers with
  | none => .raised
  | some u =>
    match (wsState n).exec (watching u) () with
    | some (.listening _, _) => .accepted u.email
    | _ => .refused

def socketIdentity (settings : Settings) (headers : Headers) : Identity :=
  match socketUser settings headers with
  | none => .raised
  | some u => if u.email = "" then .refused else .accepted u.email

theorem controlIdentity_eq (settings : Settings) (headers : Headers) :
    controlIdentity settings headers = socketIdentity settings headers := by
  unfold controlIdentity socketIdentity
  cases socketUser settings headers with
  | none => rfl
  | some u =>
    simp only [openControl, call, Program.exec_bind, Program.exec_call, entering, Option.bind_some]
    by_cases empty : u.email = ""
    · rw [if_pos empty, if_pos empty]
      rfl
    · rw [if_neg empty, if_neg empty]
      rfl

theorem stateIdentity_eq (settings : Settings) (headers : Headers) (n : Nat) :
    stateIdentity settings headers n = socketIdentity settings headers := by
  unfold stateIdentity socketIdentity
  cases socketUser settings headers with
  | none => rfl
  | some u =>
    simp only [wsState, connect, performs, Program.exec_bind, Program.exec_call, watching, Option.bind_some]
    by_cases empty : u.email = ""
    · rw [if_pos empty, if_pos empty]
      rfl
    · rw [if_neg empty, if_neg empty]
      rfl

/-- The two sides reach the same decision, and no identity is empty. -/
def Agree (settings : Settings) (headers : Headers) : Prop :=
  (requireEmail headers = .refused ∧ controlIdentity settings headers = .refused ∧
    ∀ n, stateIdentity settings headers n = .refused) ∨
  ∃ email, email ≠ "" ∧ requireEmail headers = .accepted email ∧
    controlIdentity settings headers = .accepted email ∧ ∀ n, stateIdentity settings headers n = .accepted email

def Blank (value : String) : Prop := value ≠ "" ∧ value.toList.all isSpace = true

def bytesOf (text : String) : List UInt8 := text.toList.map fun c => UInt8.ofNat c.toNat

def httpKey : List UInt8 := bytesOf "x-auth-email"

/-- The header of the sockets can be looked up, it names the same user as that of HTTP, a missing one
    like an empty one, and that of HTTP is not blank. -/
structure Consistent (settings : Settings) (headers : Headers) : Prop where
  same : ∃ key, headerKey? settings.authEmailHeader = some key ∧
    (User.ofHeader ((headers.first key).getD "")).email = (User.ofHeader ((headers.first httpKey).getD "")).email
  visible : ∀ value, headers.first httpKey = some value → ¬ Blank value

theorem stripBy_eq_nil_iff (space : Char → Bool) (cs : List Char) :
    Python.stripBy space cs = [] ↔ cs.all space = true := by
  rw [Python.stripBy, List.reverse_eq_nil_iff, List.dropWhile_eq_nil_iff, List.all_eq_true]
  constructor
  · intro all c member
    rw [← List.takeWhile_append_dropWhile (p := space) (l := cs)] at member
    rcases List.mem_append.mp member with first | rest
    · exact List.mem_takeWhile_imp first
    · exact all c (List.mem_reverse.mpr rest)
  · intro all c member
    exact all c ((List.dropWhile_sublist space).mem (List.mem_reverse.mp member))

theorem ofHeader_empty_iff (value : String) :
    (User.ofHeader value).email = "" ↔ value.toList.all isSpace = true := by
  have letters : (User.ofHeader value).email.toList = (Python.stripBy isSpace value.toList).map lowerChar := by
    change (lower (strip value)).toList = _
    rw [lower, strip, String.toList_ofList, String.toList_ofList]
  rw [← stripBy_eq_nil_iff, ← List.map_eq_nil_iff (f := lowerChar), ← letters, String.toList_eq_nil_iff]

theorem requireEmail_eq (headers : Headers) :
    requireEmail headers =
      if (headers.first httpKey).getD "" = "" then .refused
      else .accepted (User.ofHeader ((headers.first httpKey).getD "")).email := by
  have known : headerKey? httpHeader = some httpKey := by decide
  rw [requireEmail, known]
  dsimp only
  cases headers.first httpKey with
  | none => exact (if_pos rfl).symm
  | some value => rfl

theorem agree_iff (settings : Settings) (headers : Headers) :
    Agree settings headers ↔ requireEmail headers = socketIdentity settings headers ∧
      requireEmail headers ≠ .raised ∧ requireEmail headers ≠ .accepted "" := by
  simp only [Agree, controlIdentity_eq, stateIdentity_eq, forall_const]
  constructor
  · intro agree
    rcases agree with ⟨http, socket, -⟩ | ⟨email, some_, http, socket, -⟩
    · simp [http, socket]
    · simp [http, socket, some_]
  · intro ⟨same, calm, some_⟩
    rw [← same]
    cases decided : requireEmail headers with
    | refused => exact .inl ⟨rfl, rfl, rfl⟩
    | raised => exact absurd decided calm
    | accepted email =>
      refine .inr ⟨email, ?_, rfl, rfl, rfl⟩
      rintro rfl
      exact some_ decided

theorem visible_iff (found : Option String) :
    (∀ value, found = some value → ¬ Blank value) ↔
      (found.getD "" = "" ∨ (User.ofHeader (found.getD "")).email ≠ "") := by
  cases found with
  | none => exact iff_of_true (fun _ some_ => by cases some_) (.inl rfl)
  | some value =>
    rw [Option.getD_some, Ne, ofHeader_empty_iff]
    simp only [Option.some.injEq, forall_eq', Blank]
    rw [not_and_or, Ne, not_not]

theorem agree_iff_consistent (settings : Settings) (headers : Headers) :
    Agree settings headers ↔ Consistent settings headers := by
  rw [agree_iff, requireEmail_eq, socketIdentity, socketUser]
  cases known : headerKey? settings.authEmailHeader with
  | none =>
    -- the lookup raises for the sockets, which agrees with no answer of `require_email`
    refine iff_of_false ?_ ?_
    · intro agree
      exact agree.2.1 agree.1
    · intro consistent
      obtain ⟨key, other, -⟩ := consistent.same
      cases known.symm.trans other
  | some key =>
    have consistent : Consistent settings headers ↔
        (User.ofHeader ((headers.first key).getD "")).email =
          (User.ofHeader ((headers.first httpKey).getD "")).email ∧
        ((headers.first httpKey).getD "" = "" ∨ (User.ofHeader ((headers.first httpKey).getD "")).email ≠ "") := by
      rw [← visible_iff]
      constructor
      · intro consistent
        obtain ⟨key', other, same⟩ := consistent.same
        cases known.symm.trans other
        exact ⟨same, consistent.visible⟩
      · exact fun both => ⟨⟨key, known, both.1⟩, both.2⟩
    rw [consistent, Option.map_some]
    dsimp only
    generalize (User.ofHeader ((headers.first key).getD "")).email = socket
    generalize (headers.first httpKey).getD "" = value
    by_cases nothing : value = ""
    · subst nothing
      have empty : (User.ofHeader "").email = "" := by decide
      rw [empty]
      by_cases none_ : socket = "" <;> simp [none_]
    · generalize (User.ofHeader value).email = email
      by_cases none_ : socket = ""
      · subst none_
        simp [nothing, eq_comm]
      · simp only [nothing, none_, if_false, false_or, Identity.accepted.injEq, ne_eq, reduceCtorEq,
          not_false_eq_true, true_and]
        rw [eq_comm]

/-- Another name is configured, which `require_email` does not ask about; or the header holds a no-break
    space, which is an identity for HTTP only. -/
theorem identities_differ :
    ¬ Agree { authEmailHeader := "X-Forwarded-Email" } [(bytesOf "x-forwarded-email", bytesOf "alice@example.com")] ∧
      ¬ Agree {} [(bytesOf "x-auth-email", [0xa0])] := by
  constructor
  · rw [agree_iff]
    intro agree
    exact absurd agree.1 (by decide +kernel)
  · rw [agree_iff]
    intro agree
    exact agree.2.2 (by decide +kernel)

/-- `dist` of `_mount_frontend` where it goes on to add its routes. -/
structure Mounted (fs : FileSystem) where
  dist : Path
  isDir : fs.isDir dist = true

def mountFrontend (fs : FileSystem) (settings : Settings) : Option (Mounted fs) :=
  if isDir : fs.isDir (Path.parse settings.frontendDist) then some ⟨Path.parse settings.frontendDist, isDir⟩
  else none

namespace Mounted

variable {fs : FileSystem} (mounted : Mounted fs)

def index : Path := mounted.dist.join (Path.parse "index.html")

def candidate (fullPath : String) : Path := mounted.dist.join (Path.parse fullPath)

def spa (fullPath : String) : Path :=
  if fullPath ≠ "" ∧ fs.isFile (mounted.candidate fullPath) then mounted.candidate fullPath
  else mounted.index

/-- No file is asked for, there is none, or by its text the path ends below `dist`. -/
def Harmless (fullPath : String) : Prop :=
  fullPath = "" ∨ fs.isFile (mounted.candidate fullPath) = false ∨
    ∃ home, fs.locate mounted.dist = some home ∧ home <+: FileSystem.target home (Path.parse fullPath)

theorem index_inside : fs.Contains mounted.dist mounted.index := by
  obtain ⟨home, located⟩ := FileSystem.located_of_isDir mounted.isDir
  refine ⟨home, located, fun there joined => ?_⟩
  rw [FileSystem.locate_join located joined]
  exact List.prefix_append home ["index.html"]

theorem candidate_inside_iff {fullPath : String} (file : fs.isFile (mounted.candidate fullPath) = true) :
    fs.Contains mounted.dist (mounted.candidate fullPath) ↔
      ∃ home, fs.locate mounted.dist = some home ∧ home <+: FileSystem.target home (Path.parse fullPath) := by
  obtain ⟨there, joined⟩ := FileSystem.located_of_isFile file
  refine exists_congr fun home => and_congr_right fun located => ?_
  rw [← FileSystem.locate_join located joined]
  constructor
  · exact fun inside => inside there joined
  · intro inside there' joined'
    cases joined.symm.trans joined'
    exact inside

theorem spa_inside_iff (fullPath : String) :
    fs.Contains mounted.dist (mounted.spa fullPath) ↔ mounted.Harmless fullPath := by
  by_cases taken : fullPath ≠ "" ∧ fs.isFile (mounted.candidate fullPath) = true
  · rw [spa, if_pos taken, candidate_inside_iff mounted taken.2, Harmless, or_iff_right taken.1,
      or_iff_right (by simp [taken.2])]
  · rw [spa, if_neg taken]
    refine iff_of_true mounted.index_inside ?_
    rcases not_and_or.mp taken with empty | missing
    · exact .inl (not_not.mp empty)
    · exact .inr (.inl (Bool.eq_false_of_not_eq_true missing))

end Mounted

def plainTree : FileSystem where
  cwd := ["srv", "backend"]
  root := .directory
    [(⟨"srv", by decide⟩, .directory
      [(⟨"backend", by decide⟩, .directory [(⟨".env", by decide⟩, .file)]),
       (⟨"frontend", by decide⟩, .directory
        [(⟨"dist", by decide⟩, .directory [(⟨"index.html", by decide⟩, .file)])])])]

/-- The settings of the backend are handed to whoever asks for them by their path. -/
theorem spa_escapes :
    ¬ ∀ (fs : FileSystem) (settings : Settings) (mounted : Mounted fs), mountFrontend fs settings = some mounted →
      ∀ fullPath, fs.Contains mounted.dist (mounted.spa fullPath) := by
  intro always
  have isDir : plainTree.isDir (Path.parse "../frontend/dist") = true := by decide +kernel
  obtain ⟨home, located, inside⟩ := always plainTree {} ⟨_, isDir⟩ (dif_pos isDir) "../../backend/.env"
  have here : plainTree.locate (Path.parse "../frontend/dist") = some ["srv", "frontend", "dist"] := by
    decide +kernel
  cases located.symm.trans here
  have file : plainTree.isFile ((Path.parse "../frontend/dist").join (Path.parse "../../backend/.env")) = true := by
    decide +kernel
  have there : plainTree.locate ((Path.parse "../frontend/dist").join (Path.parse "../../backend/.env")) =
      some ["srv", "backend", ".env"] := by
    decide +kernel
  rw [Mounted.spa, if_pos ⟨by decide, file⟩] at inside
  exact absurd (inside _ there) (by decide)

end WebControl.Backend
