import ReleaseOperator.Cluster.Http
import ReleaseOperator.View.Outcome

/-!
# Views of requests

Requests to the server of the cluster as values for an observer.
-/

namespace ReleaseOperator.View

/-- What a request is for: its method, path and query. -/
def target (r : Cluster.Request) : Json :=
  fields [("method", .text r.method.name), ("path", .text r.path), ("query", .text r.query)]

def request (r : Cluster.Request) : Json :=
  fields [("method", .text r.method.name), ("path", .text r.path), ("query", .text r.query),
    ("content_type", .ofText? r.body.contentType?), ("body", r.body.json?.getD .null)]

end ReleaseOperator.View
