import Kdive.Builds.Patches
import Kdive.Console.Collector
import Kdive.Debug.Commands
import Kdive.Debug.Execution
import Kdive.Debug.Introspect
import Kdive.Debug.Resets
import Kdive.Images.Inventory
import Kdive.Images.Leaks
import Kdive.Images.Quota
import Kdive.Images.Retention
import Kdive.Inventory.Resources
import Kdive.Jobs.Builds
import Kdive.Jobs.Captures
import Kdive.Jobs.Claims
import Kdive.Jobs.Fencing
import Kdive.Jobs.Rounds
import Kdive.Platform.History
import Kdive.Platform.Leases
import Kdive.Platform.Reuse
import Kdive.Platform.Transitions
import Kdive.Platform.Usage
import Kdive.Proof.Pricing
import Kdive.Runs.Billing
import Kdive.Runs.Budget
import Kdive.Runs.Cordon
import Kdive.Runs.Provisioning
import Kdive.Security.Secrets
import Kdive.Services.Availability
import Kdive.Uploads.Elf
import Kdive.Uploads.Races
