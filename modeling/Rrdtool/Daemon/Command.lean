import Rrdtool.Daemon.Access
import Rrdtool.Protocol.Bytes

/-!
# Commands of the daemon

`list_of_commands`, `find_command` and `syntax_error` of `src/rrd_daemon.c`, and what the handlers ask of the options of
the daemon and of the system.
-/

namespace Rrdtool

/-- The commands, in the order of `list_of_commands`; `endBatch` is the dot. -/
inductive Command where
  | update | wrote | tune | dump | flush | flushAll | pending | forget | queue | stats | help | ping | batch | endBatch
  | fetch | fetchBin | info | first | last | create | list | suspend | resume | suspendAll | resumeAll | quit
deriving DecidableEq

/-- `list_of_commands`, with the names. -/
def listOfCommands : List (Command × String) :=
  [(.update, "UPDATE"), (.wrote, "WROTE"), (.tune, "TUNE"), (.dump, "DUMP"), (.flush, "FLUSH"), (.flushAll, "FLUSHALL"),
    (.pending, "PENDING"), (.forget, "FORGET"), (.queue, "QUEUE"), (.stats, "STATS"), (.help, "HELP"), (.ping, "PING"),
    (.batch, "BATCH"), (.endBatch, "."), (.fetch, "FETCH"), (.fetchBin, "FETCHBIN"), (.info, "INFO"), (.first, "FIRST"),
    (.last, "LAST"), (.create, "CREATE"), (.list, "LIST"), (.suspend, "SUSPEND"), (.resume, "RESUME"),
    (.suspendAll, "SUSPENDALL"), (.resumeAll, "RESUMEALL"), (.quit, "QUIT")]

/-- `strcasecmp` gives 0. -/
def sameLetters (s t : Text) : Bool := s.map Char.toLower = t.map Char.toLower

/-- `find_command`. -/
def findCommand (cmd : Text) : Option Command :=
  (listOfCommands.find? fun p => sameLetters cmd p.2.toList).map (·.1)

/-- `syntax_error`, with the syntax of the command. -/
def syntaxError (syntaxText : String) : Text := ("Usage: " ++ syntaxText ++ "\n").toList

/-- The answer to a client that may not have the file. -/
def accessError (file : Text) : Text := file ++ ": Permission denied\n".toList

/-- What the daemon was started with, and what it finds in the file system and the memory. -/
structure Server where
  writeBaseOnly : Bool
  baseDir : Option BaseDir
  /-- A path is a string. -/
  baseDir_string : ∀ base ∈ baseDir, '\x00' ∉ base.text
  optNoOverwrite : Bool
  allowRecursiveMkdir : Bool
  /-- `realpath` fails with `ENOENT`. -/
  missing : Text → Bool
  /-- The error of `rrd_mkdir_p`. -/
  mkdirP : Text → Option Text
  /-- There is memory for an array with so many pointers. -/
  malloc : ℕ → Bool

namespace Server

/-- `get_abs_path`. -/
@[grind] def absPath (srv : Server) (filename : Text) : Text := getAbsPath (srv.baseDir.map BaseDir.text) filename

/-- `check_file_access`, for a client. -/
def checkAccess (srv : Server) (file : Text) : Bool :=
  checkFileAccess srv.writeBaseOnly false (srv.baseDir.map BaseDir.text) file

end Server

/-- A server without a base directory. -/
def openServer : Server where
  writeBaseOnly := false
  baseDir := none
  baseDir_string := by simp
  optNoOverwrite := false
  allowRecursiveMkdir := false
  missing _ := false
  mkdirP _ := none
  malloc _ := true

variable {srv : Server} {filename : Text}

/-- There is a base directory in front of a name, or the name is the path. -/
lemma Server.absPath_cases (srv : Server) (filename : Text) :
    (srv.absPath filename = filename ∧ (srv.baseDir = none ∨ filename.head? = some '/')) ∨
      ∃ base ∈ srv.baseDir, srv.absPath filename = base.text ++ '/' :: filename := by
  unfold Server.absPath getAbsPath
  cases srv.baseDir with
  | none => exact .inl ⟨rfl, .inl rfl⟩
  | some base =>
    rw [Option.map_some]
    dsimp only
    split
    · rename_i habs
      exact .inl ⟨rfl, .inr habs⟩
    · exact .inr ⟨base, rfl, rfl⟩

/-- With a base directory, the path begins with a slash. -/
lemma Server.absPath_head (srv : Server) (filename : Text) :
    srv.baseDir = none ∨ (srv.absPath filename).head? = some '/' := by
  obtain ⟨hpath, hnone | habs⟩ | ⟨base, -, hpath⟩ := srv.absPath_cases filename
  · exact .inl hnone
  · rw [hpath]
    exact .inr habs
  · right
    obtain ⟨d, ds, hdirs⟩ := List.exists_cons_of_ne_nil base.ne_nil
    rw [hpath, BaseDir.text, hdirs]
    rfl

/-- A path from the root is what it is. -/
lemma Server.absPath_of_head (h : srv.baseDir = none ∨ filename.head? = some '/') : srv.absPath filename = filename := by
  unfold Server.absPath getAbsPath
  obtain hnone | habs := h
  · rw [hnone]
    rfl
  · cases srv.baseDir with
    | none => rfl
    | some base => exact if_pos habs

/-- The path of a string is a string. -/
lemma Server.absPath_string (srv : Server) (h : '\x00' ∉ filename) : '\x00' ∉ srv.absPath filename := by
  obtain ⟨hpath, -⟩ | ⟨base, hbase, hpath⟩ := srv.absPath_cases filename
  · rwa [hpath]
  · have hstring := srv.baseDir_string base hbase
    rw [hpath, List.mem_append, List.mem_cons]
    rintro (hin | heq | hin)
    · exact hstring hin
    · cases heq
    · exact h hin

end Rrdtool
