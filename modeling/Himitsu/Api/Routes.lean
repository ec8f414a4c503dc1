import Mathlib

/-!
# The routes of the API

* `Route` — one name per handler: its `operationId`, or the path where it has none.
* `Route.authentication` — how the `onRequest` hook treats a request to the route.
-/

set_option autoImplicit false

namespace Himitsu.Api

inductive Route where
  | healthLive | healthReady | metrics | getOpenApi
  | cliLogin | signup | verifyEmail | resendVerification | login | logout
  | requestPasswordReset | confirmPasswordReset | getSession | switchOrganization
  | createOrganization | acceptInvitation
  | listProjects | createProject | getProject | updateProject | deleteProject
  | getProjectConsistency
  | getOrganization | updateOrganization | listMembers | updateMember | removeMember
  | listInvitations | inviteMember | revokeInvitation
  | listAuditEvents | exportAuditEvents | getAuditSettings | updateAuditSettings
  | listEnvironments | createEnvironment | reorderEnvironments | getEnvironment
  | updateEnvironment | deleteEnvironment
  | listSecrets | createSecret | bulkSetSecrets | fetchRuntimeSecrets | bulkGetSecrets
  | exportSecrets | previewDotenvImport | commitDotenvImport | previewJsonImport
  | commitJsonImport | previewSecretPromotion | promoteSecrets
  | getSecret | updateSecret | deleteSecret | listSecretVersions | compareSecretVersions
  | rollbackSecretVersion
  | listTags | createTag | updateTag | mergeTag | deleteTag
  | listApiKeys | createApiKey | revokeApiKey
  deriving DecidableEq, Repr

/-- What the `onRequest` hook does first: nothing, only the rate limit
(`selfAuthenticatedPaths`), or the authentication of the request. -/
inductive Authentication where
  | none
  | byHandler
  | byHook
  deriving DecidableEq, Repr

def Route.authentication : Route → Authentication
  | .healthLive | .healthReady | .metrics | .getOpenApi => .none
  | .cliLogin | .signup | .verifyEmail | .resendVerification | .login | .logout
  | .requestPasswordReset | .confirmPasswordReset | .getSession | .switchOrganization
  | .createOrganization | .acceptInvitation => .byHandler
  | _ => .byHook

end Himitsu.Api
