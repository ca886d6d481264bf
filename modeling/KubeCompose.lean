import KubeCompose.Engine.Rehearsal
import KubeCompose.Main
import KubeCompose.Proofs.Afterwards
import KubeCompose.Proofs.AliasScan
import KubeCompose.Proofs.Assignment
import KubeCompose.Proofs.Environment
import KubeCompose.Proofs.Independence
import KubeCompose.Proofs.DatabaseTypes
import KubeCompose.Proofs.Ingress
import KubeCompose.Proofs.Layers
import KubeCompose.Proofs.Labels
import KubeCompose.Proofs.Links
import KubeCompose.Proofs.Mounted
import KubeCompose.Proofs.Password
import KubeCompose.Proofs.Places
import KubeCompose.Proofs.PortMapping
import KubeCompose.Proofs.PullAddress
import KubeCompose.Proofs.PulledImages
import KubeCompose.Proofs.PushProtocol
import KubeCompose.Proofs.PushTargets
import KubeCompose.Proofs.References
import KubeCompose.Proofs.SecondRun
import KubeCompose.Proofs.Selectors
import KubeCompose.Proofs.Steps
import KubeCompose.Proofs.Substitution
import KubeCompose.Proofs.Union
import KubeCompose.Proofs.Variables
import KubeCompose.Proofs.Written
import KubeCompose.Proofs.Leftovers
import KubeCompose.Proofs.Readable
import KubeCompose.Proofs.RoundTrip
import KubeCompose.Proofs.Commuting
import KubeCompose.Proofs.Databases
import KubeCompose.Proofs.Reconversion
import KubeCompose.Proofs.Services
