import Climate.Config
import Mathlib.Data.List.Dedup
import Mathlib.Data.String.Basic

/-!
# The seccomp filter

The tables of seccomp.rs, the filter it builds from them for an app, and what
such a filter does with a call.
-/

namespace Climate.Seccomp

inductive TargetArch
  | x86_64
  | aarch64
  | other
  deriving DecidableEq, Repr

/-- The architectures a call can come from. x32 counts as one of its own. -/
inductive Arch
  | x86_64
  | x86
  | x32
  | aarch64
  | arm
  | other
  deriving DecidableEq, Repr

def allowed : List String :=
  ["_llseek", "_newselect", "accept", "accept4", "access", "adjtimex", "alarm", "bind", "brk",
    "capget", "capset", "chdir", "chmod", "chown", "chown32", "clock_adjtime", "clock_adjtime64",
    "clock_getres", "clock_getres_time64", "clock_gettime", "clock_gettime64", "clock_nanosleep",
    "clock_nanosleep_time64", "close", "close_range", "connect", "copy_file_range", "creat", "dup",
    "dup2", "dup3", "epoll_create", "epoll_create1", "epoll_ctl", "epoll_ctl_old", "epoll_pwait",
    "epoll_pwait2", "epoll_wait", "epoll_wait_old", "eventfd", "eventfd2", "execve", "execveat",
    "exit", "exit_group", "faccessat", "faccessat2", "fadvise64", "fadvise64_64", "fallocate",
    "fanotify_init", "fanotify_mark", "fchdir", "fchmod", "fchmodat", "fchmodat2", "fchown",
    "fchown32", "fchownat", "fcntl", "fcntl64", "fdatasync", "fgetxattr", "flistxattr", "flock",
    "fork", "fremovexattr", "fsconfig", "fsetxattr", "fsmount", "fsopen", "fspick", "fstat",
    "fstat64", "fstatat64", "fstatfs", "fstatfs64", "fsync", "ftruncate", "ftruncate64", "futex",
    "futex_time64", "futimesat", "get_mempolicy", "get_robust_list", "get_thread_area", "getcpu",
    "getcwd", "getdents", "getdents64", "getegid", "getegid32", "geteuid", "geteuid32", "getgid",
    "getgid32", "getgroups", "getgroups32", "getitimer", "getpeername", "getpgid", "getpgrp",
    "getpid", "getppid", "getpriority", "getrandom", "getresgid", "getresgid32", "getresuid",
    "getresuid32", "getrlimit", "getrusage", "getsid", "getsockname", "getsockopt", "gettid",
    "gettimeofday", "getuid", "getuid32", "getxattr", "inotify_add_watch", "inotify_init",
    "inotify_init1", "inotify_rm_watch", "io_cancel", "io_destroy", "io_getevents", "io_setup",
    "io_submit", "ioctl", "ioprio_get", "ioprio_set", "ipc", "keyctl", "kill", "landlock_add_rule",
    "landlock_create_ruleset", "landlock_restrict_self", "lchown", "lchown32", "lgetxattr", "link",
    "linkat", "listen", "listxattr", "llistxattr", "lremovexattr", "lseek", "lsetxattr", "lstat",
    "lstat64", "madvise", "mbind", "membarrier", "memfd_create", "memfd_secret", "mincore", "mkdir",
    "mkdirat", "mknod", "mknodat", "mlock", "mlock2", "mlockall", "mmap", "mmap2", "mount",
    "mount_setattr", "move_mount", "mprotect", "mq_getsetattr", "mq_notify", "mq_open",
    "mq_timedreceive", "mq_timedreceive_time64", "mq_timedsend", "mq_timedsend_time64", "mq_unlink",
    "mremap", "msgctl", "msgget", "msgrcv", "msgsnd", "msync", "munlock", "munlockall", "munmap",
    "name_to_handle_at", "nanosleep", "newfstatat", "open", "open_tree", "openat", "openat2",
    "pause", "pidfd_getfd", "pidfd_open", "pidfd_send_signal", "pipe", "pipe2", "pivot_root",
    "pkey_alloc", "pkey_free", "pkey_mprotect", "poll", "ppoll", "ppoll_time64", "prctl", "pread64",
    "preadv", "preadv2", "prlimit64", "process_mrelease", "process_vm_readv", "process_vm_writev",
    "pselect6", "pselect6_time64", "ptrace", "pwrite64", "pwritev", "pwritev2", "read", "readahead",
    "readlink", "readlinkat", "readv", "reboot", "recv", "recvfrom", "recvmmsg", "recvmmsg_time64",
    "recvmsg", "remap_file_pages", "removexattr", "rename", "renameat", "renameat2",
    "restart_syscall", "rmdir", "rseq", "rt_sigaction", "rt_sigpending", "rt_sigprocmask",
    "rt_sigqueueinfo", "rt_sigreturn", "rt_sigsuspend", "rt_sigtimedwait", "rt_sigtimedwait_time64",
    "rt_tgsigqueueinfo", "sched_get_priority_max", "sched_get_priority_min", "sched_getaffinity",
    "sched_getattr", "sched_getparam", "sched_getscheduler", "sched_rr_get_interval",
    "sched_rr_get_interval_time64", "sched_setaffinity", "sched_setattr", "sched_setparam",
    "sched_setscheduler", "sched_yield", "seccomp", "select", "semctl", "semget", "semop",
    "semtimedop", "semtimedop_time64", "send", "sendfile", "sendfile64", "sendmmsg", "sendmsg",
    "sendto", "set_mempolicy", "set_robust_list", "set_thread_area", "set_tid_address", "setfsgid",
    "setfsgid32", "setfsuid", "setfsuid32", "setgid", "setgid32", "setgroups", "setgroups32",
    "setitimer", "setpgid", "setpriority", "setregid", "setregid32", "setresgid", "setresgid32",
    "setresuid", "setresuid32", "setreuid", "setreuid32", "setrlimit", "setsid", "setsockopt",
    "setuid", "setuid32", "setxattr", "shmat", "shmctl", "shmdt", "shmget", "shutdown",
    "sigaltstack", "signal", "signalfd", "signalfd4", "sigprocmask", "sigreturn", "socketcall",
    "socketpair", "splice", "stat", "stat64", "statfs", "statfs64", "statx", "symlink", "symlinkat",
    "sync", "sync_file_range", "syncfs", "sysinfo", "syslog", "tee", "tgkill", "time",
    "timer_create", "timer_delete", "timer_getoverrun", "timer_gettime", "timer_gettime64",
    "timer_settime", "timer_settime64", "timerfd_create", "timerfd_gettime", "timerfd_gettime64",
    "timerfd_settime", "timerfd_settime64", "times", "tkill", "truncate", "truncate64",
    "ugetrlimit", "umask", "umount", "umount2", "uname", "unlink", "unlinkat", "utime", "utimensat",
    "utimensat_time64", "utimes", "vfork", "wait4", "waitid", "waitpid", "write", "writev"]

def archAllowed : TargetArch → List String
  | .x86_64 => ["arch_prctl", "modify_ldt"]
  | .aarch64 =>
    ["arm_fadvise64_64", "arm_sync_file_range", "breakpoint", "cacheflush", "set_tls",
      "sync_file_range2"]
  | .other => []

def architectures : TargetArch → List Arch
  | .x86_64 => [.x86_64, .x86]
  | .aarch64 => [.aarch64, .arm]
  | .other => []

/-- Syscalls allowed with the capability they belong to. -/
def capabilitySyscalls : List (Capability × List String) :=
  [(.bpf, ["bpf"]),
    (.dacReadSearch, ["open_by_handle_at"]),
    (.perfmon, ["perf_event_open"]),
    (.sysAdmin, ["bpf", "lookup_dcookie", "quotactl", "quotactl_fd", "setdomainname", "sethostname", "setns"]),
    (.sysChroot, ["chroot"]),
    (.sysModule, ["delete_module", "finit_module", "init_module", "query_module"]),
    (.sysPacct, ["acct"]),
    (.sysPtrace, ["kcmp", "process_madvise"]),
    (.sysRawio, ["ioperm", "iopl"]),
    (.sysTime, ["clock_settime", "clock_settime64", "settimeofday", "stime"]),
    (.sysTtyConfig, ["vhangup"])]

def cloneNewuser : BitVec 64 := 0x10000000

def afVsock : BitVec 32 := 40

def enosys : Nat := 38

def eperm : Nat := 1

def personalities : List (BitVec 32) := [0x0, 0x8, 0x20000, 0x20008, 0xffffffff]

-- ---------------------------------------------------------------------------
-- Rules and policies
-- ---------------------------------------------------------------------------

inductive Action
  | allow
  | errno (code : Nat)
  deriving DecidableEq, Repr

/-- A test of the first argument: of some of its bits, or of all of a 32-bit one. -/
inductive Test
  | masked (mask value : BitVec 64)
  | eq (value : BitVec 32)
  | ne (value : BitVec 32)
  deriving DecidableEq, Repr

/-- Without an architecture a rule is for all of them. -/
structure Rule where
  arch : Option Arch := none
  action : Action
  syscall : String
  test : Option Test := none
  deriving DecidableEq, Repr

/-- A call from an architecture that was not added is answered with `badArch`. -/
structure Policy where
  default : Action
  archs : List Arch := []
  badArch : Action
  rules : List Rule := []
  deriving DecidableEq, Repr

structure Call where
  arch : Arch
  syscall : String
  args : Fin 6 → BitVec 64

def Test.passes : Test → BitVec 64 → Bool
  | .masked mask value, arg => arg &&& mask = value
  | .eq value, arg => arg.setWidth 32 = value
  | .ne value, arg => arg.setWidth 32 ≠ value

def Rule.applies (rule : Rule) (call : Call) : Bool :=
  rule.syscall = call.syscall && rule.arch.all (· = call.arch) &&
    rule.test.all (·.passes (call.args 0))

def Call.newUser (call : Call) : Prop := (call.args 0).getLsbD 28 = true

def Policy.decide (policy : Policy) (call : Call) : Action :=
  if policy.archs.contains call.arch then
    match policy.rules.find? (·.applies call) with
    | some rule => rule.action
    | none => policy.default
  else policy.badArch

/-- The filter library: the syscall names it knows, and its error for a rule
that it does not take. -/
structure Seacomb where
  known : String → Bool
  refusal : Policy → Rule → Option String := fun _ _ => none

-- ---------------------------------------------------------------------------
-- The profile
-- ---------------------------------------------------------------------------

/-- The rules for syscalls that are allowed only in part, each with the name
it covers. -/
def partialRules (target : TargetArch) : List (String × Rule) :=
  (architectures target).map (fun arch =>
    ("clone", { arch, action := .allow, syscall := "clone", test := some (.masked cloneNewuser 0) })) ++
  [("unshare", { action := .allow, syscall := "unshare", test := some (.masked cloneNewuser 0) }),
    ("clone3", { action := .errno enosys, syscall := "clone3" }),
    ("socket", { action := .allow, syscall := "socket", test := some (.ne afVsock) })] ++
  personalities.map fun domain =>
    ("personality", { action := .allow, syscall := "personality", test := some (.eq domain) })

/-- The names allowed in full and the rules for the others. -/
structure Granted where
  allowed : List String
  partials : List (String × Rule)

def Granted.initial (target : TargetArch) (run : RunConfig) : Granted where
  allowed := Seccomp.allowed ++ archAllowed target ++
    capabilitySyscalls.flatMap fun (capability, syscalls) =>
      if run.capabilities.contains capability then syscalls else []
  partials := partialRules target

def Granted.allow (granted : Granted) (name : String) : Granted where
  allowed := name :: granted.allowed
  partials := granted.partials.filter (·.1 ≠ name)

def Granted.deny (granted : Granted) (name : String) : Granted where
  allowed := granted.allowed.filter (· ≠ name)
  partials := granted.partials.filter (·.1 ≠ name)

def granted (target : TargetArch) (run : RunConfig) : Granted :=
  run.seccompDeny.foldl .deny (run.seccompAllow.foldl .allow (.initial target run))

def Policy.add (sea : Seacomb) (policy : Policy) (rule : Rule) : Except String Policy :=
  match sea.refusal policy rule with
  | none => .ok { policy with rules := policy.rules ++ [rule] }
  | some message => .error message

def addAllowed (sea : Seacomb) (policy : Policy) (name : String) : Except String Policy :=
  if sea.known name then policy.add sea { action := .allow, syscall := name }
  else .error s!"'{name}' is not the name of a syscall"

def addPartial (sea : Seacomb) (policy : Policy) (entry : String × Rule) : Except String Policy :=
  (policy.add sea entry.2).mapError fun _ => s!"adding the seccomp rule for {entry.1}"

/-- The names are added in order, each once. -/
def profile (sea : Seacomb) (target : TargetArch) (run : RunConfig) : Except String Policy := do
  let refuse := Action.errno eperm
  let policy : Policy := { default := refuse, archs := architectures target, badArch := refuse }
  let policy ← ((granted target run).allowed.dedup.mergeSort (· ≤ ·)).foldlM (addAllowed sea) policy
  (granted target run).partials.foldlM (addPartial sea) policy

def checkSyscallNames (sea : Seacomb) (run : RunConfig) : Except String Unit :=
  match (run.seccompAllow ++ run.seccompDeny).find? fun name => !sea.known name with
  | none => .ok ()
  | some name => .error s!"'{name}' is not the name of a syscall"

end Climate.Seccomp
