import Wsic.Cgi.CgiT
import Wsic.Worker.Shutdown

/-!
# The descriptors of a server instance

Model of all threads of a server process by the descriptors that they open and close:
`server_acceptConnections`, `src/server/server.c:208–271`, with `server_handleSSL`,
`server.c:311`; the loop of any number of workers, `src/worker/worker.c:85–114`, on the message
queue, with the CGI process or the file that a request needs; and `server_closeGracefully`,
`server.c:368–403`. One event is one system call, or one step of the worker pool. A variable for
a descriptor also remembers which file its owner has open under the number; the code has the
number only. What a request needs, and how the calls turn out, is up to the events. A connection to
the system log, `Wsic.Main.Daemon`, is one of the descriptors that the process is started with.
-/

open CMemory Descriptors

namespace Wsic.Instance

open WorkerPool Cgi

/-- What a descriptor of the process can refer to. -/
inductive File where
  /-- Open since before the process was forked. -/
  | inherited (number : ℕ)
  | listening (id : ℕ)
  | connection (id : ℕ)
  | pipe (id : ℕ) (stream : Stream) (side : Side)
  /-- The file of `resources_loadFile`, `resources.c:14`. -/
  | document (id : ℕ)
deriving DecidableEq

/-- An open descriptor: its number, and the file that it was opened for. -/
abbrev Descriptor := ℕ × File

/-- `connection_t` by the number of its socket, which is open until the connection is freed, and
the file that the socket was when it was accepted. -/
structure Connection where
  socket : ℕ
  id : ℕ
deriving DecidableEq

/-- The descriptor of a connection. -/
def Connection.descriptor (connection : Connection) : Descriptor :=
  (connection.socket, .connection connection.id)

/-- The descriptors of `cgi_process_t`, `cgi.h:12–14`. -/
abbrev Process := Stream × Side → Slot File

/-- What a worker has open for the request that it handles. -/
inductive Activity where
  /-- Nothing so far. -/
  | request
  /-- `resources_loadFile`, `resources.c:20–53`. -/
  | document (file : Descriptor)
  /-- `worker_returnCGI` with the calls that it has still to make. -/
  | cgi (process : Process) (todo : List Call)
  /-- Nothing any more. -/
  | answered

/-- A server process with `n` workers. The accept loop has a connection from `accept` to its
push. A descriptor is lost when it stays open although no variable has its number. -/
structure State (n : ℕ) where
  pool : Pool n Connection
  table : Table File
  /-- The number of files that were opened so far. -/
  count : ℕ
  /-- The array `socketDescriptors`, `server.c:22`, with an entry for every port. -/
  sockets : List (Slot File)
  /-- The variable `socketDescriptorCount`, `server.c:23`. -/
  socketCount : ℕ
  /-- The listening socket that is closed next, once the shutdown has begun. -/
  closing : Option ℕ
  /-- The variable of `server.c:240`. -/
  accepted : Option Connection
  /-- The field of `worker_t`. -/
  connection : Fin n → Option Connection
  activity : Fin n → Activity
  lost : Multiset Descriptor

/-! ### The accept loop -/

/-- What `SSL_get_error` tells of a handshake that is not over. -/
inductive HandshakeError where
  | wantRead
  | wantWrite
  | other
deriving DecidableEq

/-- The answers in one round of the loop of `server_handleSSL`: of `SSL_accept`, of
`SSL_get_error` and of `poll`. -/
structure Handshake where
  accept : Int
  error : HandshakeError
  poll : Int
deriving DecidableEq

/-- The loop of `server_handleSSL`, `server.c:332–365`: whether there is a TLS connection. After
a handshake that was shut down the loop goes on with the freed connection. -/
def handleSSL : List Handshake → Checked Bool
  | [] => .error .nonTermination
  | round :: rounds =>
    if round.accept = 0 then .error .danglingPointer
    else if round.accept < 0 then
      if round.error = .wantRead then
        if round.poll < -1 then .ok false else handleSSL rounds
      else if round.error = .wantWrite then
        if round.poll < -1 then .ok false else handleSSL rounds
      else .ok false
    else .ok true

/-- The answers to the calls that set a connection up, `server.c:232–263`. -/
structure SetUp where
  nonBlocking : Bool
  created : Bool
  isSSL : Bool
  rounds : List Handshake
  shutdown : Bool

variable {n : ℕ}

namespace State

/-- `connection_close`, `connection.c:308`: the descriptor stays open when `shutdown` fails. -/
def connectionClose (s : State n) (connection : Connection) (shutdown : Bool) : State n :=
  if shutdown then { s with table := s.table.close connection.socket }
  else { s with lost := connection.descriptor ::ₘ s.lost }

/-- `accept`, `server.c:231`. -/
def accept (s : State n) : Except Halted (State n) :=
  match s.closing, s.accepted with
  | none, none => .ok { s with
      table := s.table.alloc (.connection s.count)
      count := s.count + 1
      accepted := some ⟨s.table.lowest, s.count⟩ }
  | _, _ => .error .disabled

/-- The rest of a round of the accept loop up to the push, `server.c:232–263`. -/
def setUp (s : State n) (answers : SetUp) : Except Halted (State n) :=
  match s.closing, s.accepted with
  | none, some connection =>
    if !answers.nonBlocking then
      .ok { s with table := s.table.close connection.socket, accepted := none }
    else if !answers.created then
      .ok { s with lost := connection.descriptor ::ₘ s.lost, accepted := none }
    else if answers.isSSL then
      match handleSSL answers.rounds with
      | .error reason => .error (.fault reason)
      | .ok false => .ok { s.connectionClose connection answers.shutdown with accepted := none }
      | .ok true => .ok s
    else .ok s
  | _, _ => .error .disabled

/-- `message_queue_push`, `server.c:266`. -/
def push (s : State n) (signalled : Finset (Option (Fin n))) : Except Halted (State n) :=
  match s.closing, s.accepted with
  | none, some connection =>
    match s.pool.step (.push connection signalled) with
    | .ok pool => .ok { s with pool := pool, accepted := none }
    | .error halted => .error halted
  | _, _ => .error .disabled

/-! ### The workers -/

/-- A worker in `message_queue_pop`, whose result becomes its connection, `worker.c:91`. -/
def pop (s : State n) (w : Fin n) (a : Action n Connection) : Except Halted (State n) :=
  match s.pool.step a with
  | .ok pool =>
    match (pool.workers w).place with
    | .popped connection => .ok { s with
        pool := pool
        connection := Function.update s.connection w connection }
    | _ => .ok { s with pool := pool }
  | .error halted => .error halted

/-- A step of a worker outside of its handling of a connection. -/
def work (s : State n) : Action n Connection → Except Halted (State n)
  | .pop w => s.pop w (.pop w)
  | .resume w => s.pop w (.resume w)
  | .spurious w =>
    match s.pool.step (.spurious w) with
    | .ok pool => .ok { s with pool := pool }
    | .error halted => .error halted
  | .test w =>
    match s.pool.step (.test w) with
    | .ok pool => .ok { s with pool := pool }
    | .error halted => .error halted
  | _ => .error .disabled

/-- Replace what a worker does. -/
def setActivity (s : State n) (w : Fin n) (activity : Activity) : State n :=
  { s with activity := Function.update s.activity w activity }

/-- `fopen`, `resources.c:14`, or the start of `worker_returnCGI`, `worker.c:642`, with a fresh
`cgi_process_t`, whose numbers are not set. -/
def begin (s : State n) (w : Fin n) (script : Option (Stream × Side → ℕ)) :
    Except Halted (State n) :=
  match (s.pool.workers w).place, s.activity w, script with
  | .handling _, .request, none =>
    .ok ({ s with
      table := s.table.alloc (.document s.count)
      count := s.count + 1 }.setActivity w
        (.document (s.table.lowest, .document s.count)))
  | .handling _, .request, some fresh =>
    .ok (s.setActivity w (.cgi (fun e ↦ ⟨fresh e, none⟩) returnCGI))
  | _, _, _ => .error .disabled

/-- `pipe`: the read end gets the lower number. -/
def openPipe (s : State n) (w : Fin n) (process : Process) (stream : Stream) (todo : List Call) :
    State n :=
  let table := s.table.alloc (.pipe s.count stream .read)
  let process := Function.update process (stream, .read)
    ⟨s.table.lowest, some (.pipe s.count stream .read)⟩
  { s with
    table := table.alloc (.pipe s.count stream .write)
    count := s.count + 1 }.setActivity w
      (.cgi (Function.update process (stream, .write)
        ⟨table.lowest, some (.pipe s.count stream .write)⟩) todo)

/-- The next call of `worker_returnCGI`, which succeeds or fails. -/
def call (s : State n) (w : Fin n) (succeeds : Bool) : Except Halted (State n) :=
  match s.activity w with
  | .cgi process (.pipe stream :: todo) =>
    if succeeds then .ok (s.openPipe w process stream todo)
    else .ok (s.setActivity w (.cgi process spawnFailed))
  | .cgi process (.fork :: todo) =>
    .ok (s.setActivity w (.cgi process (if succeeds then todo else spawnFailed)))
  | .cgi process (.close stream side :: todo) =>
    let slot := process (stream, side)
    .ok ({ s with table := s.table.close slot.number }.setActivity w
      (.cgi (Function.update process (stream, side) slot.closed) todo))
  | .cgi process (.read :: todo) =>
    .ok (s.setActivity w (.cgi process (if succeeds then todo else readFailed)))
  | .cgi process (.write :: todo) | .cgi process (.wait :: todo)
  | .cgi process (.kill :: todo) => .ok (s.setActivity w (.cgi process todo))
  | .cgi _ (.follow :: _) => .error (.fault .nullPointer)
  | .cgi _ [] => .ok (s.setActivity w .answered)
  | .document file =>
    .ok ({ s with table := s.table.close file.1 }.setActivity w .answered)
  | _ => .error .disabled

/-- The end of a round of a worker with `connection_free`, `worker.c:112–113`. -/
def finish (s : State n) (w : Fin n) (shutdown : Bool) : Except Halted (State n) :=
  match s.activity w, s.connection w, s.pool.step (.finish w) with
  | .cgi _ _, _, _ | .document _, _, _ => .error .disabled
  | _, some connection, .ok pool =>
    .ok { s.connectionClose connection shutdown with
      pool := pool
      connection := Function.update s.connection w none
      activity := Function.update s.activity w .request }
  | _, none, _ => .error (.fault .nullPointer)
  | _, _, .error halted => .error halted

/-! ### The shutdown -/

/-- The next step of the worker pool in `server_closeGracefully`, `server.c:385–403`;
`worker_free` frees the connection that a worker has left, `worker.c:711–712`. -/
def closePool (s : State n) (shutdown : Bool) : Except Halted (State n) :=
  match s.pool.step .close with
  | .error halted => .error halted
  | .ok pool =>
    match s.pool.phase with
    | .joining i =>
      if h : i < n then
        match s.connection ⟨i, h⟩ with
        | some connection => .ok { s.connectionClose connection shutdown with
            pool := pool
            connection := Function.update s.connection ⟨i, h⟩ none }
        | none => .ok { s with pool := pool }
      else .ok { s with pool := pool }
    | _ => .ok { s with pool := pool }

/-- The next step of `server_closeGracefully`: the signal arrives, a listening socket is shut
down and closed, `server.c:375–379`, or the workers are stopped. -/
def close (s : State n) (shutdown : Bool) : Except Halted (State n) :=
  match s.closing with
  | none => .ok { s with closing := some 0 }
  | some i =>
    if i < s.socketCount then
      match s.sockets[i]? with
      | some socket => .ok { s with
          table := s.table.close socket.number
          sockets := s.sockets.set i socket.closed
          closing := some (i + 1) }
      | none => .error (.fault .outOfBounds)
    else s.closePool shutdown

end State

/-- What happens next. -/
inductive Event (n : ℕ) where
  | accept
  | setUp (answers : SetUp)
  | push (signalled : Finset (Option (Fin n)))
  | work (a : Action n Connection)
  | begin (w : Fin n) (script : Option (Stream × Side → ℕ))
  | call (w : Fin n) (succeeds : Bool)
  | finish (w : Fin n) (shutdown : Bool)
  | close (shutdown : Bool)

/-- One event. -/
def step (s : State n) : Event n → Except Halted (State n)
  | .accept => s.accept
  | .setUp answers => s.setUp answers
  | .push signalled => s.push signalled
  | .work a => s.work a
  | .begin w script => s.begin w script
  | .call w succeeds => s.call w succeeds
  | .finish w shutdown => s.finish w shutdown
  | .close shutdown => s.close shutdown

/-! ### The start -/

/-- How `server_listen` turns out, `server.c:160`: there is no socket, one of the calls on it
fails, or it listens. -/
inductive Listening where
  | noSocket
  | fails
  | listens
deriving DecidableEq

/-- A round of the set-up loop, `server.c:114–126`. A socket whose calls have failed stays open,
and so does the one that has the number 0, which stands for a failure. -/
def listen (s : State n) (port : Listening) : State n :=
  if port = .noSocket then { s with sockets := s.sockets ++ [⟨0, none⟩] }
  else
    let socket : Descriptor := (s.table.lowest, .listening s.count)
    let s := { s with
      table := s.table.alloc (.listening s.count)
      count := s.count + 1 }
    if port = .listens ∧ socket.1 ≠ 0 then
      { s with
        sockets := s.sockets ++ [⟨socket.1, some socket.2⟩]
        socketCount := s.socketCount + 1 }
    else { s with sockets := s.sockets ++ [⟨0, none⟩], lost := socket ::ₘ s.lost }

/-- The process when it begins to accept connections: the descriptors that it was forked with,
and a round of the set-up loop for each port. -/
def start (inherited : Table File) (ports : List Listening) : State n :=
  ports.foldl listen
    ⟨create, inherited, 0, [], 0, none, none, fun _ ↦ none, fun _ ↦ .request, 0⟩

end Wsic.Instance
