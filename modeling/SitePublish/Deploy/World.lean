import SitePublish.Deploy.Run
import SitePublish.Hosting.Memory
import SitePublish.Hosting.Vercel
import SitePublish.Remote.GitHub
import SitePublish.Remote.Memory

/-!
# The world of a process

Everything that calls on services change: the remote and the host in memory, the branches that are
held, the files of the working directory and the connection to the services outside, whatever its
state is. Offline services use nothing of the connection.
-/

set_option autoImplicit false

namespace SitePublish

structure World (τ : Type) where
  remote : MemoryRemote
  host : MemoryHost
  locks : LockTable
  files : FileTree
  connection : τ

namespace World

variable {τ : Type}

def ofFiles (files : FileTree) (connection : τ) : World τ :=
  ⟨.empty, .empty, .empty, files, connection⟩

/-- Takes a branch, and its lock file if there is a directory for them. A failure gives the branch
back. -/
def lock (dir : Option String) (branch : String) (w : World τ) : Except LockError Unit × World τ :=
  match dir with
  | none => (.ok (), { w with locks := w.locks.acquire branch })
  | some dir =>
    match LockFile.create w.files dir branch with
    | (.error e, files) => (.error e, { w with files := files })
    | (.ok (), files) => (.ok (), { w with locks := w.locks.acquire branch, files := files })

def unlock (branch : String) (w : World τ) : World τ :=
  { w with locks := w.locks.release branch }

def offline (lockDir : Option String) : Services (World τ) where
  snapshot branch w := (.ok (w.remote.snapshot branch), w)
  write branch expected files message w :=
    let (result, remote) := w.remote.write branch expected files message
    (result, { w with remote := remote })
  publish request w :=
    let (result, host) := w.host.deploy request
    (result, { w with host := host })
  provision repo domain w :=
    let (result, host) := w.host.provision repo domain
    (result, { w with host := host })
  lock := lock lockDir
  unlock := unlock

def listCommits (branch : String) (count : Nat) (w : World τ) :
    Except RemoteError (List Commit) × World τ :=
  let (result, remote) := w.remote.listCommits branch count
  (result, { w with remote := remote })

def through {ε α : Type} (call : Http.Call τ ε α) (w : World τ) : Except ε α × World τ :=
  let (result, connection) := call w.connection
  (result, { w with connection := connection })

def withHost (services : Services (World τ)) (v : Vercel) (exchange : Http.Exchange τ) :
    Services (World τ) :=
  { services with
    publish := fun request => through (v.deploy exchange request)
    provision := fun repo domain => through (v.provision exchange repo domain) }

def withRemote (services : Services (World τ)) (g : GitHub) (exchange : Http.Exchange τ) :
    Services (World τ) :=
  { services with
    snapshot := fun branch => through (g.snapshot exchange branch)
    write := fun branch expected files message =>
      through (g.write exchange branch expected files message) }

end World

end SitePublish
