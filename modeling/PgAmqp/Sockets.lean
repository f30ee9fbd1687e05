import PgAmqp.Connect

/-!
# How a socket is set up

What `local_amqp_open_socket` passes to rabbitmq-c for one host, and which of these calls
switch off a check of the server's certificate.
-/
namespace PgAmqp

/-- `struct timeval`. -/
structure Timeval where
  sec : Nat
  usec : Nat
  deriving DecidableEq, Repr

def Timeval.ofMs (ms : Nat) : Timeval := ⟨ms / 1000, ms % 1000 * 1000⟩

/-- `AMQP_TLSv1_2` and `AMQP_TLSvLATEST`. -/
inductive TlsVersion where
  | v12 | latest
  deriving DecidableEq, Repr

/-- The calls that set a socket up. -/
inductive SetupCall where
  | sslSocketNew | tcpSocketNew
  | setSslVersions (min max : TlsVersion)
  | setVerifyPeer (verify : Bool)
  | setVerifyHostname (verify : Bool)
  | setCacert (cacert : String)
  | setKey (cert key : String)
  | openNoblock (host : Option String) (port : Int) (timeout : Timeval)
  deriving DecidableEq, Repr

namespace BrokerHost

/-- The call that creates the socket of a host. -/
def creates (h : BrokerHost) : SetupCall := if h.useSsl then .sslSocketNew else .tcpSocketNew

/-- The calls between its creation and its opening. -/
def configures (h : BrokerHost) : List SetupCall :=
  if h.useSsl then
    [.setSslVersions .v12 .latest, .setVerifyPeer h.sslVerify, .setVerifyHostname h.sslVerify] ++
      (h.sslCacert.map .setCacert).toList ++
      (match h.sslCert, h.sslKey with
        | some cert, some key => [.setKey cert key]
        | _, _ => [])
  else []

/-- `amqp_socket_open_noblock`, with the connect timeout as it stands. -/
def opens (h : BrokerHost) (connectTimeoutMs : Nat) : SetupCall :=
  .openNoblock h.host h.port (.ofMs connectTimeoutMs)

/-- The calls that create, configure and open the socket of a host. -/
def socketCalls (h : BrokerHost) (connectTimeoutMs : Nat) : List SetupCall :=
  h.creates :: h.configures ++ [h.opens connectTimeoutMs]

end BrokerHost

/-- The calls that switch a check of the server's certificate off. -/
def SetupCall.trusts : SetupCall → Bool
  | .setVerifyPeer verify => !verify
  | .setVerifyHostname verify => !verify
  | _ => false

/-- The checks are on for a host whose row does not switch them off. -/
theorem socketCalls_trusts {h : BrokerHost} {ms : Nat} :
    (h.socketCalls ms).any SetupCall.trusts = (h.useSsl && !h.sslVerify) := by
  have hkeys : ((h.sslCacert.map SetupCall.setCacert).toList ++ (match h.sslCert, h.sslKey with
      | some cert, some key => [SetupCall.setKey cert key]
      | _, _ => [])).any SetupCall.trusts = false := by
    cases h.sslCacert <;> cases h.sslCert <;> cases h.sslKey <;> rfl
  simp only [BrokerHost.socketCalls, BrokerHost.creates, BrokerHost.configures, BrokerHost.opens]
  cases h.useSsl with
  | false => rfl
  | true =>
    rw [if_pos rfl, if_pos rfl, List.append_assoc, List.any_append, List.any_cons, List.any_append, hkeys]
    cases h.sslVerify <;> rfl

end PgAmqp
