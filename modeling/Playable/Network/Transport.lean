import Playable.Record.Validation
import Playable.Settings

/-!
# Transports

Which proxy a request goes through, and whether certificates are checked, is
configured per pattern of URLs. A client is set up from this configuration.
-/

namespace Playable.Network

open Json (Value Fields)
open Record

/-- What holds for the URLs of one pattern. -/
structure Route where
  /-- Whether a proxy is used. -/
  proxied : Bool
  /-- The proxy, if it is another one than the common one. -/
  proxyUrl : Option Text
  /-- Whether certificates are checked. -/
  verify : Bool
  deriving DecidableEq, Repr

/-- Read what holds for the URLs of one pattern. -/
def Route.read : Reader Route :=
  object fun fields => Route.mk
    <$> withDefault fields ["proxy"] truth true
    <*> optional fields ["proxy_url"] text
    <*> withDefault fields ["verify_ssl"] truth true

/-- How requests are transported. -/
structure TransportConfig where
  /-- The common proxy. -/
  proxyUrl : Option Text
  /-- Whether certificates are never checked. -/
  neverVerify : Bool
  /-- Whether the common proxy is used for all URLs. -/
  proxyAll : Bool
  /-- What holds for patterns of URLs. -/
  routes : Register Route
  /-- The seconds after which a request is given up. -/
  timeout : Int
  deriving DecidableEq, Repr

/-- Read a route for each pattern. -/
def readRoutes : Reader (Register Route)
  | .object fields => fields.foldr (fun field routes =>
      (fun route rest => (field.1, route) :: rest)
        <$> (Route.read field.2).within field.1 <*> routes) (.valid [])
  | _ => .invalid [[]]

/-- Read a configuration. -/
def TransportConfig.read : Reader TransportConfig :=
  object fun fields => TransportConfig.mk
    <$> optional fields ["proxy_url"] text
    <*> withDefault fields ["disable_ssl_verification_globally"] truth false
    <*> withDefault fields ["all_proxy"] truth false
    <*> withDefault fields ["transport_routes"] readRoutes []
    <*> withDefault fields ["timeout"] integer Settings.timeout

/-- How the requests of one pattern are made. -/
structure Transport where
  /-- Whether certificates are checked. -/
  verify : Bool
  /-- The proxy. -/
  proxy : Option Text
  deriving DecidableEq, Repr

/-- The pattern of all URLs. -/
def allUrls : Text :=
  "all://".toList

/-- The transport of a route: its own proxy comes before the common one. -/
def TransportConfig.transport (config : TransportConfig) (route : Route) : Transport where
  verify := !config.neverVerify && route.verify
  proxy :=
    if !route.proxied then none
    else match route.proxyUrl with
      | none | some [] => config.proxyUrl
      | some url => some url

/-- The transports by pattern. All URLs have one of their own if the common proxy is
used for them or certificates are not checked. -/
def TransportConfig.mounts (config : TransportConfig) : Register Transport :=
  let mounts := Register.ofPairs (config.routes.map fun r => (r.1, config.transport r.2))
  let proxy := if config.proxyAll then config.proxyUrl else none
  if proxy.any (· ≠ []) || config.neverVerify then
    Register.set mounts allUrls ⟨!config.neverVerify, proxy⟩
  else mounts

/-- What may be asked for when a client is set up. -/
structure ClientOptions where
  /-- Whether redirections are followed. -/
  followRedirects : Option Value
  /-- After how long a request is given up. -/
  timeout : Option Value
  /-- What is sent along with each request. -/
  headers : Option Value

/-- A client that is ready to make requests. -/
structure Client where
  /-- The transports by pattern. -/
  mounts : Register Transport
  /-- Whether redirections are followed. -/
  followRedirects : Value
  /-- After how long a request is given up. -/
  timeout : Value
  /-- What is sent along with each request. -/
  headers : Value

/-- Set a client up. What is asked for comes before what is configured. -/
def TransportConfig.client (config : TransportConfig) (options : ClientOptions) : Client where
  mounts := config.mounts
  followRedirects := options.followRedirects.getD (.bool true)
  timeout := options.timeout.getD (.int config.timeout)
  headers := options.headers.getD (.object [("user-agent".toList, .text Settings.userAgent)])

end Playable.Network
